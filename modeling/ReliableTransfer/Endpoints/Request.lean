import ReliableTransfer.Files.DataFeeder
import ReliableTransfer.Parser.ArgumentParser
import ReliableTransfer.Wire.Serial

/-!
# The request

`Client::start` sends the name of the file it wants in a data packet, and `Server::start` opens
the file named in whatever packet it receives.
-/

namespace ReliableTransfer

/-- The packet `Client::start` sends: as many bytes of the zero-terminated name as the cast of
its size says. -/
def Client.request (order : ByteOrder) (filename : ByteString) : Option Packet :=
  createDataPacket order (filename ++ [0]) (UInt16.ofNat filename.length) 0

/-- The buffer `filePath` in `Server::start`; `none` where the copy leaves `pck.data`. -/
def Server.filePath (pck : Packet) : Option ByteString :=
  if 8 ≤ pck.len.toNat ∧ pck.len.toNat ≤ 520 then
    some (pck.data.toList.take (pck.len.toNat - 8) ++
      List.replicate (pckDataSize + 1 - (pck.len.toNat - 8)) 0)
  else none

/-- What a child of `Server::start` does with a request up to `readFile`. -/
def Server.readFile (disk : ByteString → Option DiskFile) (pck : Packet) :
    Option (Bool × DataFeeder) :=
  (Server.filePath pck).map fun filePath => DataFeeder.new.readFile disk (cString filePath)

/-- The string `Server::start` passes to `readFile`. -/
def Server.path (pck : Packet) : Option ByteString := (Server.filePath pck).map cString

theorem copyBytes_append (s t : ByteString) : copyBytes (s ++ t) s.length = copyBytes s s.length := by
  ext i hi
  by_cases h : i < s.length
  · simp [copyBytes,h,List.getElem?_append_left h]
  · simp [copyBytes,h]

theorem request_of_le (order : ByteOrder) {filename : ByteString} (h : filename.length ≤ 512) :
    Client.request order filename =
      some (createDataPacketCore order (.ofBytes filename h) 0) := by
  have hsize := PacketCoreData.ofBytes_size filename h
  rw [← createDataPacket_ofBytes order filename h 0]
  have hnat : (UInt16.ofNat filename.length).toNat = filename.length := hsize
  rw [Client.request,createDataPacket,createDataPacket,hnat,copyBytes_append]
  simp [h]

theorem path_of_le (order : ByteOrder) {filename : ByteString} (h : filename.length ≤ 512) :
    Server.path (createDataPacketCore order (.ofBytes filename h) 0) = some (cString filename) := by
  have hlen := (PacketCoreData.ofBytes filename h).len_toNat
  rw [PacketCoreData.ofBytes_size] at hlen
  have hbytes := PacketCoreData.ofBytes_bytes filename h
  rw [PacketCoreData.bytes,PacketCoreData.ofBytes_size] at hbytes
  have hrest : (8 + filename.length) - 8 = filename.length := Nat.add_sub_cancel_left ..
  rw [Server.path,Server.filePath,createDataPacketCore_len,hlen,hrest,
    if_pos ⟨Nat.le_add_right _ _,Nat.add_le_add_left h 8⟩]
  change some (cString ((copyBytes _ _).toList.take filename.length ++ _)) = _
  rw [PacketCoreData.copyBytes_data,hbytes,cString_append_zeros]
  simp only [pckDataSize]
  omega

/-- No packet makes the server open a longer name, or one with a zero byte. -/
theorem path_bounded {pck : Packet} {name : ByteString} (h : Server.path pck = some name) :
    name.length ≤ 512 ∧ 0 ∉ name := by
  obtain ⟨filePath,hbuffer,rfl⟩ := Option.map_eq_some_iff.mp h
  refine ⟨?_,zero_notMem_cString filePath⟩
  unfold Server.filePath at hbuffer
  split at hbuffer
  · obtain rfl := Option.some.inj hbuffer
    have hpos : 0 < pckDataSize + 1 - (pck.len.toNat - 8) := by
      simp only [pckDataSize]
      omega
    rw [cString_append_zeros _ _ hpos]
    apply (length_cString_le _).trans
    rw [List.length_take,Vector.length_toList]
    exact min_le_right _ _
  · contradiction

/-- The file the client asks for is the file the server opens exactly if its name has at most 512
bytes and no zero byte among them. -/
theorem request_roundtrip (lib : ParserLib) (order : ByteOrder) (file : Option ByteString)
    (params : ClientParameters) (_ : lib.readClientParameters file = .accepted params) :
    (∃ pck, Client.request order params.filename = some pck ∧
      Server.path (deserializePacket (serializePacket pck)) = some params.filename) ↔
    params.filename.length ≤ 512 ∧ 0 ∉ params.filename := by
  constructor
  · intro h
    obtain ⟨pck,hpck,hpath⟩ := h
    exact path_bounded hpath
  · intro h
    refine ⟨_,request_of_le order h.1,?_⟩
    rw [deserialize_serializePacket,path_of_le order h.1,cString_eq_self.mpr h.2]

theorem request_roundtrip_byte : ∃ pck, Client.request .little [97] = some pck ∧
    Server.path (deserializePacket (serializePacket pck)) = some [97] :=
  (request_roundtrip smallLib .little (clientFile [97] [49]) ⟨0x01010101,1,1,[97],1⟩ rfl).mpr
    (by decide)

set_option maxRecDepth 4000 in
/-- An accepted name of 513 bytes does not fit into the packet, and an accepted name with a zero
byte is opened without what follows it. -/
theorem request_differs :
    smallLib.readClientParameters (clientFile (List.replicate 513 97) [49]) =
        .accepted ⟨0x01010101,1,1,List.replicate 513 97,1⟩ ∧
      Client.request .little (List.replicate 513 97) = none ∧
    smallLib.readClientParameters (clientFile [97,0,98] [49]) =
        .accepted ⟨0x01010101,1,1,[97,0,98],1⟩ ∧
      ¬∃ pck, Client.request .little [97,0,98] = some pck ∧
        Server.path (deserializePacket (serializePacket pck)) = some [97,0,98] := by
  refine ⟨rfl,?_,rfl,?_⟩
  · rw [Client.request,createDataPacket]
    exact if_neg (by decide)
  · intro h
    obtain ⟨pck,-,hpath⟩ := h
    exact absurd (path_bounded hpath).2 (by decide)

end ReliableTransfer
