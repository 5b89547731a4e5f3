import NesConsole.Proofs.Saves.Beside

/-! One persist, which the disk may refuse at either half. A write of the temporary does not show in
the save file, and the rename puts all bytes there at once or none. -/
namespace NesConsole

namespace Disk
variable {d d' : Disk}

def Puts (path : String) (bytes : Array UInt8) (d d' : Disk) : Prop :=
  ∃ l, d.locate path = .ok l ∧ d.get? l ≠ some .directory ∧ d' = d.put l (.file bytes)

def spent (d : Disk) : Disk := { d with mishaps := d.mishaps.tail }

theorem nodes_spent (d : Disk) : d.spent.nodes = d.nodes := rfl

theorem nextMishap_eq (d : Disk) : nextMishap d = .ok d.mishaps.head?.join d.spent := rfl

theorem get_eq (d : Disk) : (get : EStateM DiskError Disk Disk) d = .ok d d := rfl

end Disk

namespace BatteryRam
variable {size : Nat} {b b' : BatteryRam size} {d d' m : Disk} {image : String} {e : DiskError}

/-- A save that is made whether or not it is needed. -/
def attempt (b : BatteryRam size) : EStateM DiskError Disk (BatteryRam size) := do
  Disk.write b.temporaryPath b.ram.cells.toArray
  Disk.rename b.temporaryPath b.path
  return { b with dirty := false }

theorem persist_of_dirty (h : b.dirty = true) (d : Disk) : b.persist d = b.attempt d := by
  unfold persist attempt
  rw [h]
  rfl

theorem persist_of_clean (h : b.dirty = false) (d : Disk) : b.persist d = .ok b d := by
  obtain ⟨ram, path, dirty⟩ := b
  cases h
  rfl

theorem fst_close (b : BatteryRam size) (d : Disk) : (b.close d).1 = stateAfter b.persist d := by
  unfold close stateAfter
  cases b.persist d <;> rfl

/-! ### The save file while a save is made -/

/-- A file in the place of the temporary does not show in the save file. -/
theorem read_of_puts {junk : Array UInt8} (h : Disk.Puts (savePath image ++ ".tmp") junk d d') :
    d'.read (savePath image) = d.read (savePath image) := by
  obtain ⟨l, hlocate, hnode, rfl⟩ := h
  obtain ⟨save, hbeside⟩ := Beside.of_locate hlocate
  exact hbeside.read_put hnode _

def Ready (image : String) (bytes : Array UInt8) (d : Disk) : Prop :=
  ∃ temporary save, Beside image d temporary save ∧ d.get? temporary = some (.file bytes)

theorem ready_of_puts {bytes : Array UInt8} (h : Disk.Puts (savePath image ++ ".tmp") bytes d d') :
    Ready image bytes d' := by
  obtain ⟨l, hlocate, hnode, rfl⟩ := h
  obtain ⟨save, hbeside⟩ := Beside.of_locate hlocate
  refine ⟨l, save, hbeside.uphold (Disk.upholds_put hbeside.temporaryIsFree hnode _), ?_⟩
  rw [Disk.get?_put hbeside.temporaryIsFree, if_pos rfl]

/-- The first half of a save. -/
theorem leads_write (image : String) (bytes : Array UInt8)
    (held : Except DiskError (Array UInt8)) :
    Leads (fun d => d.read (savePath image) = held) (Disk.write (savePath image ++ ".tmp") bytes)
      (fun _ d => d.read (savePath image) = held ∧ Ready image bytes d)
      fun _ d => d.read (savePath image) = held := by
  intro d hheld
  have hread : d.spent.read (savePath image) = held :=
    (Disk.read_of_nodes d.nodes_spent _).trans hheld
  rw [Disk.write, bind_ok (Disk.nextMishap_eq d), bind_ok (Disk.get_eq _)]
  generalize d.mishaps.head?.join = mishap
  generalize d.spent = d₁ at hread ⊢
  cases hlocate : d₁.locate (savePath image ++ ".tmp") with
  | error e => exact hread
  | ok l =>
    dsimp only
    rcases hnode : d₁.get? l with _ | old | _ | e
    case some.directory => exact hread
    case some.closed => exact hread
    -- What stands in the way of a write is gone: it is the mishap that decides.
    all_goals
      have hputs (junk : Array UInt8) :
          Disk.Puts (savePath image ++ ".tmp") junk d₁ (d₁.put l (.file junk)) :=
        ⟨l, hlocate, by rw [hnode]; nofun, rfl⟩
      cases mishap with
      | none => exact ⟨(read_of_puts (hputs bytes)).trans hread, ready_of_puts (hputs bytes)⟩
      | some m =>
        obtain ⟨e, _ | junk⟩ := m
        · exact hread
        · exact (read_of_puts (hputs junk)).trans hread

/-- The second half: the temporary takes the name of the save file, or all stays. -/
theorem leads_rename (image : String) (bytes : Array UInt8)
    (held : Except DiskError (Array UInt8)) :
    Leads (fun d => d.read (savePath image) = held ∧ Ready image bytes d)
      (Disk.rename (savePath image ++ ".tmp") (savePath image))
      (fun _ d => d.read (savePath image) = .ok bytes)
      fun _ d => d.read (savePath image) = held := by
  intro d ⟨hheld, temporary, save, h, hfile⟩
  have hread : d.spent.read (savePath image) = held :=
    (Disk.read_of_nodes d.nodes_spent _).trans hheld
  have hbeside := h.uphold (Disk.upholds_of_nodes d.nodes_spent)
  rw [← Disk.get?_of_nodes d.nodes_spent] at hfile
  rw [Disk.rename, bind_ok (Disk.nextMishap_eq d)]
  generalize d.mishaps.head?.join = mishap
  generalize d.spent = d₁ at hread hbeside hfile ⊢
  cases mishap with
  | some m => exact hread
  | none =>
    dsimp only
    rw [bind_ok (Disk.get_eq _), hbeside.temporaryAt, hbeside.saveAt]
    dsimp only
    rw [hfile]
    dsimp only
    by_cases hdir : d₁.get? save = some .directory
    · rw [if_pos hdir]
      exact hread
    · rw [if_neg hdir]
      exact hbeside.read_moved (by rw [hfile]; nofun) hdir bytes

/-- A save that is not refused leaves the bytes of the RAM at the save file, and one that is
refused leaves what was there. -/
theorem leads_attempt (hpath : b.path = savePath image) (held : Except DiskError (Array UInt8)) :
    Leads (fun d => d.read (savePath image) = held) b.attempt
      (fun b' d => b' = { b with dirty := false } ∧
        d.read (savePath image) = .ok b.ram.cells.toArray)
      fun _ d => d.read (savePath image) = held := by
  unfold attempt temporaryPath
  rw [hpath]
  exact .bind (leads_write image _ held) fun _ => .bind (leads_rename image _ held) fun _ =>
    .pure fun _ hcopy => ⟨rfl, hcopy⟩

/-- What a persist comes to: nothing where the RAM is in step, and a whole save or a refused one
where it is not. -/
theorem leads_persist (hpath : b.path = savePath image) (d : Disk) :
    Leads (· = d) b.persist
      (fun b' d' => b' = { b with dirty := false } ∧ if b.dirty
        then d'.read (savePath image) = .ok b.ram.cells.toArray else d' = d)
      fun _ d' => b.dirty = true ∧ d'.read (savePath image) = d.read (savePath image) := by
  rintro d rfl
  cases hdirty : b.dirty with
  | false =>
    rw [persist_of_clean hdirty]
    obtain ⟨ram, path, dirty⟩ := b
    cases hdirty
    exact ⟨rfl, rfl⟩
  | true =>
    have hcases := leads_attempt hpath (d.read (savePath image)) d rfl
    rw [persist_of_dirty hdirty]
    cases hattempt : b.attempt d with
    | ok b' d' =>
      rw [hattempt] at hcases
      exact hcases
    | error e d' =>
      rw [hattempt] at hcases
      exact ⟨rfl, hcases⟩

/-- The disks that may be there at some moment of a persist or a close. While the temporary is
written it may hold anything. -/
inductive Passes (b : BatteryRam size) (d : Disk) : Disk → Prop where
  | start : b.Passes d d
  | writing {m : Disk} (junk : Array UInt8) (h : Disk.Puts b.temporaryPath junk d m) : b.Passes d m
  | written : b.Passes d (stateAfter (Disk.write b.temporaryPath b.ram.cells.toArray) d)
  | persisted : b.Passes d (stateAfter b.persist d)
  | closed : b.Passes d (b.close d).1

/-- At every moment the save file is what it was, or the copy that this persist makes. -/
theorem Passes.read (h : b.Passes d m) (hpath : b.path = savePath image) :
    m.read (savePath image) = d.read (savePath image) ∨
      b.dirty = true ∧ (∃ b' d', b.persist d = .ok b' d') ∧
        m.read (savePath image) = .ok b.ram.cells.toArray := by
  have hended : (stateAfter b.persist d).read (savePath image) = d.read (savePath image) ∨
      b.dirty = true ∧ (∃ b' d', b.persist d = .ok b' d') ∧
        (stateAfter b.persist d).read (savePath image) = .ok b.ram.cells.toArray := by
    have hcases := leads_persist hpath d d rfl
    unfold stateAfter
    cases hpersist : b.persist d with
    | error e d' =>
      rw [hpersist] at hcases
      exact .inl hcases.2
    | ok b' d' =>
      rw [hpersist] at hcases
      obtain ⟨-, hcopy⟩ := hcases
      split at hcopy
      case isTrue hdirty => exact .inr ⟨hdirty, ⟨b', d', rfl⟩, hcopy⟩
      case isFalse => exact .inl (congrArg _ hcopy)
  cases h with
  | start => exact .inl rfl
  | writing junk hputs =>
    rw [temporaryPath, hpath] at hputs
    exact .inl (read_of_puts hputs)
  | written =>
    have hkeeps : Keeps (fun d' => d'.read (savePath image) = d.read (savePath image))
        (Disk.write (savePath image ++ ".tmp") b.ram.cells.toArray) :=
      (leads_write image _ _).mono (fun _ h => h) (fun _ _ h => h.1) fun _ _ h => h
    rw [temporaryPath, hpath]
    exact .inl (hkeeps.stateAfter rfl)
  | persisted => exact hended
  | closed =>
    rw [fst_close]
    exact hended

end BatteryRam

end NesConsole
