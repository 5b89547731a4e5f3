import NesConsole.Proofs.Saves.Persist

/-! Saves through any run of byte writes and persists, each of which the disk may refuse. The save
file is whole at every moment, the RAM knows whether it is in step, and a refused save costs nothing
but the next attempt. -/
namespace NesConsole

inductive SaveAct where
  | write (offset : Nat) (data : UInt8)
  | persist
  deriving DecidableEq

namespace SaveAct
variable {size : Nat}

/-- The RAM and the disk after an act. A refused persist gives no RAM back, and the one it was
made on stays. -/
def run : SaveAct → BatteryRam size × Disk → BatteryRam size × Disk
  | .write offset data, (b, d) => (b.write offset data, d)
  | .persist, (b, d) =>
    match b.persist d with
    | .ok b' d' => (b', d')
    | .error _ d' => (b, d')

def afterAll (start : BatteryRam size × Disk) : List SaveAct → BatteryRam size × Disk
  | [] => start
  | act :: past => act.run (afterAll start past)

def Succeeds (s : BatteryRam size × Disk) : Prop := ∃ b' d', s.1.persist s.2 = .ok b' d'

theorem not_succeeds {s : BatteryRam size × Disk} {e : DiskError} {d' : Disk}
    (h : s.1.persist s.2 = .error e d') : ¬Succeeds s := by
  rintro ⟨_, _, hok⟩
  exact absurd (h.symm.trans hok) nofun

instance (s : BatteryRam size × Disk) : Decidable (Succeeds s) :=
  match h : s.1.persist s.2 with
  | .ok b' d' => isTrue ⟨b', d', h⟩
  | .error _ _ => isFalse (not_succeeds h)

def Owed (start : BatteryRam size × Disk) : List SaveAct → Prop
  | [] => False
  | .write _ _ :: _ => True
  | .persist :: past => Owed start past ∧ ¬Succeeds (afterAll start past)

def Wrote (past : List SaveAct) : Prop := ∃ offset data, .write offset data ∈ past

/-- What the RAM held when some persist of the past had something to save and succeeded. A close
counts as a persist. -/
def IsCopy (start : BatteryRam size × Disk) (past : List SaveAct)
    (contents : Except DiskError (Array UInt8)) : Prop :=
  ∃ earlier, .persist :: earlier <:+ past ∧ Owed start earlier ∧
    Succeeds (afterAll start earlier) ∧
    contents = .ok (afterAll start earlier).1.ram.cells.toArray

/-- What the past has come to: the flag of the RAM is true where something is owed to the save
file, which is whole, and in step with the RAM where nothing is. -/
structure Kept (image : String) (start : BatteryRam size × Disk) (past : List SaveAct)
    (s : BatteryRam size × Disk) : Prop where
  path : s.1.path = savePath image
  owed : s.1.dirty = true ↔ Owed start past
  whole : s.2.read (savePath image) = start.2.read (savePath image) ∨
    IsCopy start past (s.2.read (savePath image))
  inStep : s.1.dirty = false → Wrote past →
    s.2.read (savePath image) = .ok s.1.ram.cells.toArray

variable {image : String} {start s : BatteryRam size × Disk} {past : List SaveAct}
  {contents : Except DiskError (Array UInt8)}

theorem IsCopy.cons (h : IsCopy start past contents) (act : SaveAct) :
    IsCopy start (act :: past) contents := by
  obtain ⟨earlier, hsuffix, hrest⟩ := h
  exact ⟨earlier, hsuffix.trans (List.suffix_cons act past), hrest⟩

theorem Kept.write (h : Kept image start past s) (offset : Nat) (data : UInt8) :
    Kept image start (.write offset data :: past) ((SaveAct.write offset data).run s) where
  path := h.path
  owed := iff_of_true rfl trivial
  whole := h.whole.imp_right fun hcopy => hcopy.cons _
  inStep := nofun

theorem not_wrote_nil : ¬Wrote [] := by
  rintro ⟨_, _, hmem⟩
  exact List.not_mem_nil hmem

theorem Wrote.of_persist (h : Wrote (.persist :: past)) : Wrote past := by
  obtain ⟨offset, data, hmem⟩ := h
  exact ⟨offset, data, (List.mem_cons.1 hmem).resolve_left nofun⟩

theorem Kept.persist (h : Kept image start past (afterAll start past)) :
    Kept image start (.persist :: past) (SaveAct.persist.run (afterAll start past)) := by
  generalize hs : afterAll start past = s at h ⊢
  obtain ⟨b, d⟩ := s
  have hcases := BatteryRam.leads_persist h.path d d rfl
  unfold SaveAct.run
  dsimp only at hcases ⊢
  cases hpersist : b.persist d with
  | error e d' =>
    rw [hpersist] at hcases
    obtain ⟨hdirty, hread⟩ := hcases
    have hfails : ¬Succeeds (afterAll start past) := hs ▸ not_succeeds hpersist
    refine ⟨h.path, iff_of_true hdirty ⟨h.owed.1 hdirty, hfails⟩, ?_,
      fun hclean => absurd (hdirty.symm.trans hclean) nofun⟩
    dsimp only
    rw [hread]
    exact h.whole.imp_right fun hcopy => hcopy.cons _
  | ok b' d' =>
    rw [hpersist] at hcases
    obtain ⟨rfl, hcopy⟩ := hcases
    have hsucceeds : Succeeds (afterAll start past) := by
      rw [hs]
      exact ⟨_, d', hpersist⟩
    have howed : ¬Owed start (.persist :: past) := fun howed => howed.2 hsucceeds
    -- A save was made only where one was owed; else disk and RAM are as they were.
    cases hdirty : b.dirty with
    | true =>
      rw [hdirty, if_pos rfl] at hcopy
      refine ⟨h.path, iff_of_false nofun howed,
        .inr ⟨past, List.suffix_refl _, h.owed.1 hdirty, hsucceeds, ?_⟩, fun _ _ => hcopy⟩
      rw [hs]
      exact hcopy
    | false =>
      rw [hdirty, if_neg nofun] at hcopy
      subst hcopy
      exact ⟨h.path, iff_of_false nofun howed, h.whole.imp_right fun hcopy => hcopy.cons _,
        fun _ hwrote => h.inStep hdirty hwrote.of_persist⟩

theorem kept_afterAll (h : Kept image start [] start) (past : List SaveAct) :
    Kept image start past (afterAll start past) := by
  induction past with
  | nil => exact h
  | cons act past ih =>
    cases act with
    | write offset data => exact ih.write offset data
    | persist => exact ih.persist

end SaveAct

namespace BatteryRam
variable {size : Nat}
open SaveAct

theorem kept_restore (blank : Ram size) (image : String) (d : Disk) :
    Kept image ((restore blank image d).1, d) [] ((restore blank image d).1, d) := by
  have hclean : (restore blank image d).1.path = savePath image ∧
      (restore blank image d).1.dirty = false := by
    unfold restore
    dsimp only
    cases d.read (savePath image) with
    | ok bytes =>
      dsimp only
      split <;> exact ⟨rfl, rfl⟩
    | error e => cases e <;> exact ⟨rfl, rfl⟩
  refine ⟨hclean.1, ?_, .inl rfl, fun _ hwrote => absurd hwrote not_wrote_nil⟩
  rw [hclean.2]
  exact iff_of_false Bool.false_ne_true id

/-- After any history of writes and persists on any disk: the save file is at every moment what it
was when the RAM was opened, or a whole copy from a persist or close that succeeded; a persist that
succeeds after a write leaves the RAM's bytes there; one that is refused leaves file and RAM, and
the next persist or close makes the whole attempt; and where nothing is owed no file is touched. -/
theorem saves_are_whole (blank : Ram size) (image : String) (d₀ : Disk) (past : List SaveAct) :
    let start := ((restore blank image d₀).1, d₀)
    let b := (afterAll start past).1
    let d := (afterAll start past).2
    (∀ m, b.Passes d m → m.read (savePath image) = d₀.read (savePath image) ∨
      IsCopy start (.persist :: past) (m.read (savePath image))) ∧
    (∀ b' d', b.persist d = .ok b' d' → Wrote past →
      b'.ram = b.ram ∧ d'.read (savePath image) = .ok b.ram.cells.toArray) ∧
    (∀ e d', b.persist d = .error e d' → d'.read (savePath image) = d.read (savePath image) ∧
      afterAll start (.persist :: past) = (b, d') ∧ Owed start (.persist :: past)) ∧
    (Owed start past → ∀ d', b.persist d' = b.attempt d' ∧
      (b.close d').1 = stateAfter b.attempt d') ∧
    (¬Owed start past → ∀ d', b.persist d' = .ok b d' ∧ b.close d' = (d', [])) := by
  intro start b d
  have h := kept_afterAll (kept_restore blank image d₀) past
  have hcases := leads_persist h.path d d rfl
  refine ⟨fun m hm => ?_, fun b' d' hok hwrote => ?_, fun e d' herror => ?_, fun howed d' => ?_,
    fun hnone d' => ?_⟩
  · obtain hread | ⟨hdirty, hsucceeds, hcopy⟩ := hm.read h.path
    · rw [hread]
      exact h.whole.imp_right fun hcopy => hcopy.cons _
    · exact .inr ⟨past, List.suffix_refl _, h.owed.1 hdirty, hsucceeds, hcopy⟩
  · rw [hok] at hcases
    obtain ⟨rfl, hread⟩ := hcases
    refine ⟨rfl, ?_⟩
    split at hread
    case isTrue => exact hread
    case isFalse hclean =>
      rw [hread]
      exact h.inStep (Bool.eq_false_iff.2 hclean) hwrote
  · rw [herror] at hcases
    obtain ⟨hdirty, hread⟩ := hcases
    have hrun : SaveAct.persist.run (b, d) = (b, d') := by rw [SaveAct.run, herror]
    exact ⟨hread, hrun, h.owed.1 hdirty, not_succeeds herror⟩
  · have hdirty : b.dirty = true := h.owed.2 howed
    have hpersist := persist_of_dirty hdirty
    refine ⟨hpersist d', ?_⟩
    rw [fst_close, stateAfter, stateAfter, hpersist]
  · have hclean : b.dirty = false := Bool.eq_false_iff.2 fun hdirty => hnone (h.owed.1 hdirty)
    have hpersist := persist_of_clean hclean d'
    refine ⟨hpersist, ?_⟩
    rw [close, hpersist]

/-- A disk that holds a save, and that is full at the first write, which leaves junk. -/
def fullDisk : Disk where
  nodes := [(["g.sav"], .file #[5])]
  mishaps := [some { error := .other "no space", leftover := some #[9] }]

/-- The save that the full disk refuses is made by the second persist. -/
theorem saves_are_whole_refused :
    let start := ((restore (Ram.blank 1 ⟨0, rfl⟩) "g" fullDisk).1, fullDisk)
    let b := (afterAll start [.write 0 7]).1
    ∃ e d b' d', b.persist fullDisk = .error e d ∧ d.read "g.sav" = fullDisk.read "g.sav" ∧
      b.persist d = .ok b' d' ∧ d'.read "g.sav" = .ok #[7] := by
  intro start b
  obtain ⟨-, -, hrefused, -, -⟩ := saves_are_whole (Ram.blank 1 ⟨0, rfl⟩) "g" fullDisk [.write 0 7]
  obtain ⟨-, hsaved, -, -, -⟩ :=
    saves_are_whole (Ram.blank 1 ⟨0, rfl⟩) "g" fullDisk [.persist, .write 0 7]
  have hfirst : ¬Succeeds (afterAll start [.write 0 7]) := by decide +kernel
  have hsecond : Succeeds (afterAll start [.persist, .write 0 7]) := by decide +kernel
  have hram : (afterAll start [.persist, .write 0 7]).1.ram.cells.toArray = #[7] := by
    decide +kernel
  cases hpersist : b.persist fullDisk with
  | ok b' d => exact absurd ⟨b', d, hpersist⟩ hfirst
  | error e d =>
    obtain ⟨hread, hkept, -⟩ := hrefused e d hpersist
    obtain ⟨b', d', hok⟩ := hsecond
    have hwrote : Wrote [.persist, .write 0 7] := ⟨0, 7, by decide⟩
    have hcopy := (hsaved b' d' hok hwrote).2
    rw [hram] at hcopy
    have hsame : afterAll start [.persist, .write 0 7] = (b, d) := hkept
    rw [hsame] at hok
    exact ⟨e, d, b', d', rfl, hread, hok, hcopy⟩

end BatteryRam
end NesConsole
