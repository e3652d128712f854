import ReliableTransfer.Workers.SelectiveRepeat.Safety
import ReliableTransfer.Workers.SelectiveRepeatCC.Protocol

/-!
# Selective repeat delivers the file

Both variants, for all windows and all schedules of `control.cc`.
-/

namespace ReliableTransfer

open Framework

namespace SelectiveRepeatCC

theorem roomy (order : ByteOrder) (file : List UInt8) (window : UInt32) :
    RepeatServer.Roomy order file window (room window) :=
  fun _ hc hpos => decide_eq_true (hc.confined.size_lt hpos)

theorem closes (order : ByteOrder) (file : List UInt8) : RepeatServer.Closes order file hooks := by
  intro s hs hpend i hi
  have hnil : s.sendOrder.values = List.nil := by simpa [hooks] using hpend
  have hmem := (hs.mem_order i).mpr hi
  simp [hnil] at hmem

end SelectiveRepeatCC

namespace RepeatServer

/-- Selective repeat delivers the file exactly, in both variants. -/
theorem selectiveRepeat_delivers (order : ByteOrder) (file : List UInt8)
    (window clientWindow : UInt32) (dupAcks : List UInt32) :
    (∀ x, (SelectiveRepeat.link order clientWindow).Run (SelectiveRepeat.start window file) x →
      Exact order file x) ∧
    (∀ x, (SelectiveRepeatCC.link order clientWindow).Run
        (SelectiveRepeatCC.start dupAcks window file) x → Exact order file x) :=
  ⟨fun _ hrun => exact_of_holds (SelectiveRepeat.closes order file)
      (safe_run (SelectiveRepeat.roomy order file clientWindow) hrun),
    fun _ hrun => exact_of_holds (SelectiveRepeatCC.closes order file)
      (safe_run (SelectiveRepeatCC.roomy order file clientWindow) hrun)⟩

theorem selectiveRepeat_delivers_first :
    (∃ order x, (SelectiveRepeat.link order 1).Run (SelectiveRepeat.start 1 [0]) x ∧
      x.client.Got [0] 0 ∧ Exact order [0] x) ∧
    (∃ order x, (SelectiveRepeatCC.link order 1).Run (SelectiveRepeatCC.start List.nil 1 [0]) x ∧
      x.client.Got [0] 0 ∧ Exact order [0] x) := by
  have hd := selectiveRepeat_delivers .little [0] 1 1 List.nil
  obtain ⟨c,hx,hacc⟩ := first_delivered .little [0] SelectiveRepeat.hooks 1
    (SelectiveRepeat.roomy .little [0] 1) (by decide) (P := fun _ _ => True) fun _ _ => trivial
  obtain ⟨c',hx',hacc'⟩ := first_delivered .little [0] SelectiveRepeatCC.hooks (.start List.nil 1)
    (SelectiveRepeatCC.roomy .little [0] 1) (by decide) (P := fun _ _ => True) fun _ _ => trivial
  have hwin : RepeatClient.fresh.InWindow 1 0 := by decide
  exact ⟨⟨.little,_,hx,(hacc.got 0).mpr (Or.inr ⟨hwin,rfl⟩),hd.1 _ hx⟩,
    ⟨.little,_,hx',(hacc'.got 0).mpr (Or.inr ⟨hwin,rfl⟩),hd.2 _ hx'⟩⟩

end RepeatServer

end ReliableTransfer
