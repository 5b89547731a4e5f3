import NesConsole.Proofs.Safety.Whole

/-! Which pages an object transfer can copy. Every page of the address space is answered whole but
for one: a transfer of page `$40` is refused at `$4018`. -/
namespace NesConsole
namespace MainBus

/-- A block is read to its end, or refused at the first of its addresses that no device owns. -/
theorem leads_readBlock (n : Nat) (address : UInt16) : Leads Whole (readBlock address n)
    (fun _ b => b.Whole ∧ ∀ k < n, mainMap.owner? (address + UInt16.ofNat k) ≠ none)
    fun e b => b.Whole ∧ ∃ k < n, e = .unmapped (address + UInt16.ofNat k) ∧
      mainMap.owner? (address + UInt16.ofNat k) = none ∧
      ∀ j < k, mainMap.owner? (address + UInt16.ofNat j) ≠ none := by
  induction n generalizing address with
  | zero => exact fun _ h => ⟨h, fun k hk => absurd hk (Nat.not_lt_zero k)⟩
  | succ n ih =>
    have hzero : address + UInt16.ofNat 0 = address := UInt16.add_zero address
    have hplace (k : Nat) : address + 1 + UInt16.ofNat k = address + UInt16.ofNat (k + 1) := by
      rw [UInt16.add_assoc, Nat.add_comm, UInt16.ofNat_add]
      rfl
    intro b hb
    rw [readBlock]
    by_cases howner : mainMap.owner? address = none
    · rw [bind_error (read_unowned howner)]
      refine ⟨hb, 0, n.succ_pos, ?_, ?_, fun j hj => absurd hj (Nat.not_lt_zero j)⟩
      · rw [hzero]
      · rwa [hzero]
    · obtain ⟨byte, b', hread, hb'⟩ := exists_read hb howner
      have hrest := ih (address + 1) b' hb'
      have hfirst {k : Nat} (hk : ∀ j < k, mainMap.owner? (address + 1 + UInt16.ofNat j) ≠ none) :
          ∀ j < k + 1, mainMap.owner? (address + UInt16.ofNat j) ≠ none := by
        intro j hj
        cases j with
        | zero => rwa [hzero]
        | succ j =>
          rw [← hplace]
          exact hk j (Nat.lt_of_succ_lt_succ hj)
      rw [bind_ok hread]
      cases hblock : readBlock (address + 1) n b' with
      | ok bytes b'' =>
        rw [hblock] at hrest
        rw [bind_ok hblock]
        exact ⟨hrest.1, hfirst hrest.2⟩
      | error e b'' =>
        rw [hblock] at hrest
        obtain ⟨hwhole, k, hk, he, hunowned, howned⟩ := hrest
        rw [bind_error hblock]
        rw [hplace] at he hunowned
        exact ⟨hwhole, k + 1, Nat.succ_lt_succ hk, he, hunowned, hfirst howned⟩

/-- The address of a byte of a page. -/
theorem toNat_page (page : UInt8) {k : Nat} (hk : k < 256) :
    (wordOf 0 page + UInt16.ofNat k).toNat = page.toNat * 256 + k := by
  have hpage := page.toNat_lt
  rw [UInt16.toNat_add, toNat_wordOf, UInt16.toNat_ofNat']
  change (page.toNat * 256 + 0 + k % 65536) % 65536 = _
  omega

theorem whole_picture {b : MainBus} (h : b.Whole) (p : Ppu) : Whole { b with picture := p } := h

/-- A transfer is refused exactly for page `$40`, at the first address there that no device owns. -/
theorem leads_transferObjects (page : UInt8) : Leads Whole (transferObjects page)
    (fun _ b => b.Whole ∧ page ≠ 0x40)
    fun e b => b.Whole ∧ page = 0x40 ∧ e = .unmapped 0x4018 := by
  have howner {k : Nat} (hk : k < 256) : mainMap.owner? (wordOf 0 page + UInt16.ofNat k) = none ↔
      page = 0x40 ∧ 0x18 ≤ k ∧ k < 0x20 := by
    rw [owner?_eq_none, toNat_page page hk, ← UInt8.toNat_inj]
    change _ ↔ page.toNat = 0x40 ∧ _
    omega
  have hblock : Leads Whole (readBlock (wordOf 0 page) 256) (fun _ b => b.Whole ∧ page ≠ 0x40)
      fun e b => b.Whole ∧ page = 0x40 ∧ e = .unmapped 0x4018 := by
    refine (leads_readBlock 256 (wordOf 0 page)).mono (fun _ h => h) ?_ ?_
    · rintro _ b ⟨hb, howned⟩
      refine ⟨hb, fun hpage => howned 0x18 (by decide) ?_⟩
      exact (howner (by decide)).2 ⟨hpage, by decide, by decide⟩
    · rintro e b ⟨hb, k, hk, rfl, hunowned, howned⟩
      obtain ⟨rfl, hlow, -⟩ := (howner hk).1 hunowned
      -- No later address comes first.
      have hfirst : k ≤ 0x18 := Nat.le_of_not_lt fun hlt =>
        howned 0x18 hlt ((howner (by decide)).2 ⟨rfl, by decide, by decide⟩)
      obtain rfl : k = 0x18 := Nat.le_antisymm hfirst hlow
      exact ⟨hb, rfl, rfl⟩
  unfold transferObjects
  refine .bind (M := fun _ => Whole) ?_ fun _ => .bind hblock fun bytes => ?_
  · intro b hb
    exact hb
  · intro b hb
    exact ⟨whole_picture hb.1 _, hb.2⟩

end MainBus
end NesConsole
