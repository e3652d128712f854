import ReliableTransfer.Endpoints.Copies

/-!
# The two programs

`main` makes a server or a client of a parameter file and a protocol number. Which file a client
program ends up with can be read off its parameter file and the server's disk.
-/

namespace ReliableTransfer

open Framework

/-- An address and a port, as `sockaddr_in` holds them. -/
structure Address where
  ip : UInt32
  port : UInt16
deriving DecidableEq

/-- The argument of `htons`. -/
def portOf (port : Int) : UInt16 := UInt16.ofInt port

/-- `main` and the constructor `Server::Server`, for a server on `disk`: the port it binds, and the
server; `none` is a program that ends before. -/
def serverMain (lib : ParserLib) (dupAcks : List UInt32) (disk : ByteString → Option DiskFile)
    (file : Option ByteString) (id : Int) : Option (UInt16 × Server) :=
  match lib.readServerParameters file with
  | .accepted params => (chosenType id).map fun type =>
    (portOf params.servPort,⟨type,params.windowSize,dupAcks,disk⟩)
  | _ => none

/-- `main` and the constructor `Client::Client`. -/
def clientMain (lib : ParserLib) (file : Option ByteString) (id : Int) :
    Option (UInt16 × Client Address) :=
  match lib.readClientParameters file with
  | .accepted params => (chosenType id).map fun type =>
    (portOf params.cliPort,
      ⟨type,params.filename,⟨params.inAdd,portOf params.servPort⟩,params.windowSize,.asking 0 0⟩)
  | _ => none

/-- What the cast to `uint16_t` leaves of a name. -/
def carried (name : ByteString) : ByteString := name.take (name.length % 2^16)

theorem length_carried (name : ByteString) : (carried name).length = name.length % 2^16 := by
  rw [carried,List.length_take,min_eq_left (Nat.mod_le _ _)]

theorem request_carried (order : ByteOrder) (name : ByteString) :
    Client.request order name = Client.request order (carried name) := by
  have hlen := length_carried name
  have hsize : UInt16.ofNat (carried name).length = UInt16.ofNat name.length := by
    rw [hlen]
    apply UInt16.toNat_inj.mp
    simp
  have hnat : (UInt16.ofNat name.length).toNat = (carried name).length := hlen.symm
  have hle : (carried name).length ≤ name.length := hlen.trans_le (Nat.mod_le _ _)
  have hcopy : copyBytes (name ++ [0]) (carried name).length =
      copyBytes (carried name ++ [0]) (carried name).length := by
    have hname : name ++ [0] = carried name ++ (name.drop (name.length % 2^16) ++ [0]) := by
      rw [← List.append_assoc,carried,List.take_append_drop]
    rw [hname,copyBytes_append,copyBytes_append]
  rw [Client.request,Client.request,hsize,createDataPacket,createDataPacket,hnat,hcopy]
  simp only [List.length_append,Nat.le_add_right,true_and,hle.trans (Nat.le_add_right _ _)]

def opened (name : ByteString) : ByteString := cString (carried name)

namespace Deployment

variable {ι : Type} {d : Deployment ι}

/-- A name that is too long is never asked for. -/
theorem requested_eq (name : ByteString) : d.requested name =
    if (carried name).length ≤ 512 then (d.server.disk (opened name)).map DiskFile.readable
    else none := by
  rw [requested,request_carried]
  split
  · next hle =>
    rw [request_of_le _ hle]
    simp only [Option.bind_eq_bind,Option.bind_some]
    rw [path_of_le _ hle,Option.bind_some,Option.map_eq_bind]
    rfl
  · next hgt =>
    have hnat : (UInt16.ofNat (carried name).length).toNat = (carried name).length := by
      rw [length_carried]
      simp
    rw [Client.request,createDataPacket,hnat,if_neg fun h => hgt h.2]
    rfl

variable [DecidableEq ι] {x : NetworkState ι (Process ι) (List UInt8)} {i p : ι} {c : Client ι}

theorem ends_iff (hi : d.clients i = some c) (hp : d.start.parties p = none)
    (hsize : ∀ file, d.requested c.filename = some file →
      Modest file d.server.slideWindow c.recvWindow) (out : List UInt8) :
    (∃ x c', d.Reaches x ∧ x.parties i = some (.client c') ∧ c'.copy.closed = true ∧
      c'.output = out) ↔ d.requested c.filename = some out := by
  constructor
  · rintro ⟨x,c',hx,hi',hclosed,rfl⟩
    obtain ⟨c₁,hi₁,hon⟩ := hx.client hi
    obtain rfl := Process.client.inj (Option.some.inj (hi'.symm.trans hi₁))
    rw [← hon.filename]
    cases hfile : d.requested c'.filename with
    | none =>
      rw [(hx.unanswered hi' hfile).1] at hclosed
      contradiction
    | some file => rw [(hx.output hi' hfile).2 hclosed]
  · intro hfile
    have hia : i ≠ d.address := by
      rintro rfl
      rw [d.apart] at hi
      contradiction
    have hstart : d.start.parties i = some (.client c) := by simp [start,hia,hi]
    obtain ⟨y,s,k,hrun,hy,-,hk⟩ := complete_run .refl (if_pos rfl) hstart (d.asking i c hi).1 hfile
      hp (hsize out hfile)
    have hret := hk.returned (requested_small hfile)
    exact ⟨y,_,hrun.run,host_returned hy hret,hret,hk.holds.written_all hret⟩

end Deployment

variable {lib : ParserLib}

theorem serverMain_window {dupAcks : List UInt32} {disk : ByteString → Option DiskFile}
    {file : Option ByteString} {id : Int} {port : UInt16} {server : Server}
    (h : serverMain lib dupAcks disk file id = some (port,server)) :
    ∃ servPort window seed loss, readLines file = [servPort,window,seed,loss] ∧
      server.slideWindow = UInt32.ofNat (digitsValue (cString window)) := by
  unfold serverMain at h
  split at h
  · next params hparams =>
    obtain ⟨type,-,heq⟩ := Option.map_eq_some_iff.mp h
    obtain ⟨-,rfl⟩ := Prod.mk.inj heq
    exact ParserLib.readServerParameters_window hparams
  · contradiction

theorem clientMain_fields {file : Option ByteString} {id : Int} {port : UInt16} {c : Client Address}
    (h : clientMain lib file id = some (port,c)) :
    ∃ ip servPort cliPort name window, readLines file = [ip,servPort,cliPort,name,window] ∧
      c.filename = trimCopy name ∧ c.recvWindow = UInt32.ofNat (digitsValue (cString window)) := by
  unfold clientMain at h
  split at h
  · next params hparams =>
    obtain ⟨type,-,heq⟩ := Option.map_eq_some_iff.mp h
    obtain ⟨-,rfl⟩ := Prod.mk.inj heq
    exact ParserLib.readClientParameters_fields hparams
  · contradiction

/-- Whatever the network does and whoever else is served, a client program ends with exactly what
its server holds under the name in its parameter file: trimmed, cut to its length modulo 65536 and
at its first zero byte. It can end if there is such a file, and if what the cast leaves of the name
fits into a packet. -/
theorem program_outcome {d : Deployment Address} {sfile file : Option ByteString} {sid id : Int}
    {i p : Address} {c : Client Address}
    {servPort swindow seed loss ip port cliPort name window : ByteString}
    (hserver : serverMain lib d.server.dupAcks d.server.disk sfile sid =
      some (d.address.port,d.server))
    (hclient : clientMain lib file id = some (i.port,c)) (hi : d.clients i = some c)
    (hsfile : readLines sfile = [servPort,swindow,seed,loss])
    (hfile : readLines file = [ip,port,cliPort,name,window]) (hp : d.start.parties p = none)
    (hsize : ∀ found, d.server.disk (opened (trimCopy name)) = some found →
      Modest found.readable (UInt32.ofNat (digitsValue (cString swindow)))
        (UInt32.ofNat (digitsValue (cString window)))) (out : List UInt8) :
    (∃ x c', d.Reaches x ∧ x.parties i = some (.client c') ∧ c'.copy.closed = true ∧
      c'.output = out) ↔
    (carried (trimCopy name)).length ≤ 512 ∧
      ∃ found, d.server.disk (opened (trimCopy name)) = some found ∧ found.readable = out := by
  have hslide : d.server.slideWindow = UInt32.ofNat (digitsValue (cString swindow)) := by
    obtain ⟨_,_,_,_,hlines,hslide⟩ := serverMain_window hserver
    rw [hsfile] at hlines
    simp only [List.cons.injEq,and_true] at hlines
    obtain ⟨-,rfl,-⟩ := hlines
    exact hslide
  obtain ⟨_,_,_,_,_,hlines,hname,hwindow⟩ := clientMain_fields hclient
  rw [hfile] at hlines
  simp only [List.cons.injEq,and_true] at hlines
  obtain ⟨-,-,-,rfl,rfl⟩ := hlines
  have hrequested (out : List UInt8) : d.requested c.filename = some out ↔
      (carried (trimCopy name)).length ≤ 512 ∧
        ∃ found, d.server.disk (opened (trimCopy name)) = some found ∧ found.readable = out := by
    rw [d.requested_eq,hname]
    split
    · next hle => simp [hle]
    · next hgt => simp [hgt]
  rw [d.ends_iff hi hp (fun content hcontent => ?_) out,hrequested]
  obtain ⟨-,found,hfound,rfl⟩ := (hrequested content).mp hcontent
  rw [hslide,hwindow]
  exact hsize found hfound

theorem program_outcome_small : ∃ d : Deployment Address, ∀ out : List UInt8,
    (∃ x c, d.Reaches x ∧ x.parties ⟨0x02020202,1⟩ = some (.client c) ∧ c.copy.closed = true ∧
      c.output = out) ↔
    (carried (trimCopy [97])).length ≤ 512 ∧
      ∃ found, d.server.disk (opened (trimCopy [97])) = some found ∧ found.readable = out := by
  have hne : (⟨0x01010101,1⟩ : Address) ≠ ⟨0x02020202,1⟩ := by decide
  let d : Deployment Address := .offering hne [7] (by decide) .goBackN .waitAndStop 2
  have hsize : ∀ found, d.server.disk (opened (trimCopy [97])) = some found →
      Modest found.readable (UInt32.ofNat (digitsValue (cString [50])))
        (UInt32.ofNat (digitsValue (cString [50]))) := by
    intro found hfound
    have hsmall : Deployment.smallDisk [7] (opened (trimCopy [97])) = some found := hfound
    rw [Deployment.smallDisk_eq hsmall]
    constructor <;> decide
  exact ⟨d,@program_outcome smallLib d (serverFile [50]) (clientFile [97] [50]) 3 1 _ ⟨0x01010101,2⟩
    _ _ _ _ _ _ _ _ _ _ rfl rfl rfl rfl rfl rfl hsize⟩

end ReliableTransfer
