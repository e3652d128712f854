import ReliableTransfer.Files.DataSink
import ReliableTransfer.Socket.Timeout

/-!
# What the workers ask their environment

The clock, the draw that simulates a loss, and the results of the socket calls are inputs of
every step of a server worker.
-/

namespace ReliableTransfer

/-- The answers one transmission gets: the clock before it, whether `r < loss_prob`, what
`send_packet` returns if it is called, and the clock after it. -/
structure Tick where
  now : Timeval
  dropped : Bool
  sent : Bool
  sendTime : Timeval

def Tick.Calm (t : Tick) : Prop := t.dropped = false ∧ t.sent = true

/-- The variable `sent` after a transmission, and what is on the wire. -/
def Tick.transmit (t : Tick) (packet : Packet) : Bool × List Packet :=
  if t.dropped then (true,List.nil)
  else if t.sent then (true,[packet])
  else (false,List.nil)

theorem Tick.mem_transmit {t : Tick} {packet d : Packet} (h : d ∈ (t.transmit packet).2) :
    d = packet := by
  unfold transmit at h
  split at h
  · simp at h
  · split at h <;> simp at h
    exact h

theorem Tick.transmit_failed {t : Tick} {packet : Packet}
    (h : ¬(t.transmit packet).1 = true) : (t.transmit packet).2 = List.nil := by
  unfold transmit at h ⊢
  split at h
  · simp at h
  · split at h
    · simp at h
    · next hd hs => simp [hd,hs]

theorem Tick.Calm.transmit {t : Tick} (h : t.Calm) (packet : Packet) :
    t.transmit packet = (true,[packet]) := by
  simp [Tick.transmit,h.1,h.2]

def calmTick (t : Timeval) : Tick := ⟨t,false,true,t⟩

@[simp] theorem calmTick_calm (t : Timeval) : (calmTick t).Calm := ⟨rfl,rfl⟩

/-- The answers one call of `receive_ack` gets: the clock, a second reading of it, the value
`front()` reads from an empty list (the language leaves it open), the second call of `hasData`,
and the socket. -/
structure AckEnv where
  now : Timeval
  later : Timeval
  stray : UInt32
  hasData : Bool
  recv : Recv AckPacket

/-- The timeout `receive_ack` arms the socket with, if it asks the socket at all. -/
def AckEnv.armed (env : AckEnv) (sendTime : Timeval) : Option Timeval :=
  let (miniTimeout,tv) := updateRemainingTimeoutNc fullTimeout sendTime env.now
  if !miniTimeout || env.hasData then some tv else none

def AckEnv.answer (env : AckEnv) (sendTime : Timeval) : Recv AckPacket :=
  if (env.armed sendTime).isSome then env.recv else .timeOut

/-- The datagram that `hasData` has announced is there, and is looked at. -/
def AckEnv.Calm (env : AckEnv) : Prop := env.hasData = true ∧ ∃ a, env.recv = .ok a

/-- A datagram that is waiting when `receive_ack` asks for it. -/
def arrival (t : Timeval) (a : AckPacket) : AckEnv := ⟨t,t,0,true,.ok a⟩

theorem AckEnv.answer_ok {env : AckEnv} {sendTime : Timeval} {a : AckPacket}
    (h : env.answer sendTime = .ok a) : env.recv = .ok a := by
  unfold answer at h
  split at h
  · exact h
  · contradiction

theorem AckEnv.Calm.answer {env : AckEnv} (h : env.Calm) (sendTime : Timeval) :
    ∃ a, env.answer sendTime = .ok a := by
  obtain ⟨a,ha⟩ := h.2
  exact ⟨a,by simp [AckEnv.answer,AckEnv.armed,h.1,ha]⟩

@[simp] theorem answer_arrival (t sendTime : Timeval) (a : AckPacket) :
    (arrival t a).answer sendTime = .ok a := by
  simp [arrival,AckEnv.answer,AckEnv.armed]

theorem toNat_add_one {a : UInt32} (h : a.toNat + 1 < 2^32) : (a + 1).toNat = a.toNat + 1 := by
  rw [UInt32.toNat_add]
  exact Nat.mod_eq_of_lt h

theorem toNat_lt_window {base window n : UInt32} (h : n < base + window) :
    n.toNat < base.toNat + window.toNat := by
  rw [UInt32.lt_iff_toNat_lt,UInt32.toNat_add] at h
  exact h.trans_le (Nat.mod_le _ _)

theorem toNat_window {base window : UInt32} (h : base < base + window) :
    (base + window).toNat = base.toNat + window.toNat := by
  rw [UInt32.lt_iff_toNat_lt,UInt32.toNat_add] at h
  rw [UInt32.toNat_add]
  have hbase := base.toNat_lt
  have hwindow := window.toNat_lt
  omega

theorem toNat_add_one_of_lt {a b : UInt32} (h : a < b) : (a + 1).toNat = a.toNat + 1 := by
  rw [UInt32.lt_iff_toNat_lt] at h
  have hb := b.toNat_lt
  exact toNat_add_one (by omega)

end ReliableTransfer
