import NesConsole.Proofs.Picture.Beat

/-! The cadence of the frames and the completeness of their pictures. From the end of one frame to
that of the next there are as many dots as the parity and the mask say, and each entry of the
picture is written once. -/
namespace NesConsole
namespace Ppu

section
variable {β : Type} [Bus β]

/-! ### Whole frames -/

/-- What was done, latest first, from the end of a frame, a reset or power-up to the end of the next
frame, where `older` is what was done before. -/
structure Frame (frame older : List (Deed β)) : Prop where
  completed : ∃ d recent, frame = d :: recent ∧ d.completes = true ∧
    ∀ e ∈ recent, e.opens = false
  opened : ∀ d ∈ older.head?, d.opens = true

structure Period (frame older : List (Deed β)) : Prop extends Frame frame older where
  follows : ∃ d ∈ older.head?, d.completes = true

def ticks (deeds : List (Deed β)) : Nat := deeds.countP Deed.isTick

def Shortens (d : Deed β) : Prop :=
  d.isTick = true ∧ d.before.chip.beam = .beforeSkip ∧ d.before.chip.oddFrame = true ∧
    d.before.chip.mask.rendering = true

theorem skips_iff (d : Deed β) : d.skips = true ↔ Shortens d := by
  simp only [Deed.skips, Timing.skips, Shortens, Bool.and_eq_true, beq_iff_eq]
  constructor
  · rintro ⟨htick, ⟨hodd, hrendering⟩, hbeam⟩
    exact ⟨htick, hbeam, hodd, hrendering⟩
  · rintro ⟨htick, hbeam, hodd, hrendering⟩
    exact ⟨htick, ⟨hodd, hrendering⟩, hbeam⟩

section
variable {recent older : List (Deed β)}

/-- The deed that completes a frame has a frame to complete. -/
theorem exists_frame {d : Deed β} (past : List (Deed β)) (hd : d.completes = true) :
    ∃ frame older, d :: past = frame ++ older ∧ Frame frame older := by
  refine ⟨d :: underWay past, past.dropWhile fun e => !e.opens, ?_, ⟨d, _, rfl, hd, ?_⟩, ?_⟩
  · rw [List.cons_append, underWay, List.takeWhile_append_dropWhile]
  · intro e he
    simpa using List.all_eq_true.1 List.all_takeWhile e he
  · intro e he
    have hhead := List.head?_dropWhile_not (fun e : Deed β => !e.opens) past
    rw [Option.mem_def.1 he] at hhead
    simpa using hhead

theorem underWay_append (hrecent : ∀ e ∈ recent, e.opens = false)
    (holder : ∀ d ∈ older.head?, d.opens = true) : underWay (recent ++ older) = recent := by
  induction recent with
  | nil =>
    cases older with
    | nil => rfl
    | cons d older => simp [underWay, holder d rfl]
  | cons e recent ih =>
    obtain ⟨he, hrest⟩ := List.forall_mem_cons.1 hrecent
    rw [List.cons_append, underWay_cons he, ih hrest]

/-- Where a past has come to whose frame under way has just begun. -/
theorem beat_of_opened (holder : ∀ d ∈ older.head?, d.opens = true) :
    (beat older).passed = 0 ∧ (beat older).leftOut = 0 := by
  cases older with
  | nil => exact ⟨rfl, rfl⟩
  | cons d older =>
    have hopens := holder d rfl
    unfold beat
    cases hreset : d.act.isReset with
    | true => exact ⟨rfl, rfl⟩
    | false =>
      rw [Deed.opens, hreset, Bool.or_false] at hopens
      rw [hopens]
      exact ⟨rfl, rfl⟩

theorem beat_append (hrecent : ∀ e ∈ recent, e.opens = false)
    (holder : ∀ d ∈ older.head?, d.opens = true) : beat (recent ++ older) =
      { beat older with
        passed := ticks recent + recent.countP Deed.skips
        leftOut := recent.countP Deed.skips } := by
  induction recent with
  | nil =>
    obtain ⟨hpassed, hleft⟩ := beat_of_opened holder
    exact Beat.ext rfl rfl hpassed hleft
  | cons e recent ih =>
    obtain ⟨he, hrest⟩ := List.forall_mem_cons.1 hrecent
    obtain ⟨hcompletes, hreset⟩ := Bool.or_eq_false_iff.1 he
    have hcount (p : Deed β → Bool) :
        (e :: recent).countP p = recent.countP p + (p e).toNat := by
      rw [List.countP_cons]
      cases p e <;> rfl
    rw [List.cons_append, beat_cons hreset hcompletes, ih hrest]
    refine Beat.ext rfl rfl ?_ (hcount _).symm
    change ticks recent + recent.countP Deed.skips + e.isTick.toNat + e.skips.toNat =
      (e :: recent).countP Deed.isTick + (e :: recent).countP Deed.skips
    rw [hcount, hcount, ticks]
    omega

end

/-! ### The cadence -/

section
variable {frame older : List (Deed β)} {w : Wired Ppu β}

theorem Tried.before {d : Deed β} {past : List (Deed β)} (h : Tried (d :: past) w) :
    Tried past d.before := by
  cases h with
  | act _ h => exact h

theorem Tried.of_append {later past : List (Deed β)} (h : Tried (later ++ past) w) :
    ∃ w', Tried past w' := by
  induction later generalizing w with
  | nil => exact ⟨w, h⟩
  | cons d later ih => exact ih h.before

/-- A deed that completes a frame is a dot at the start of the blank. -/
theorem place_of_completes {d : Deed β} (h : d.completes = true) :
    d.isTick = true ∧ d.act.isReset = false ∧ d.before.chip.timing.place = 82523 := by
  cases Deed.moves d.act d.before with
  | tick htick hreset hcompletes => exact ⟨htick, hreset, beq_iff_eq.1 (hcompletes.symm.trans h)⟩
  | reset _ hcompletes => cases hcompletes.symm.trans h
  | still _ hcompletes => cases hcompletes.symm.trans h

namespace Frame

/-- A frame ends with a dot at the start of the blank, which followed the rest of it. -/
theorem ended (h : Tried (frame ++ older) w) (hframe : Frame frame older) :
    ∃ d recent, frame = d :: recent ∧ (∀ e ∈ recent, e.opens = false) ∧ d.isTick = true ∧
      d.before.chip.timing.place = 82523 ∧ Tried (recent ++ older) d.before := by
  obtain ⟨d, recent, rfl, hcompletes, hrecent⟩ := hframe.completed
  obtain ⟨htick, -, hplace⟩ := place_of_completes hcompletes
  exact ⟨d, recent, rfl, hrecent, htick, hplace, Tried.before h⟩

/-- At the end of a frame all its dots have passed. -/
theorem ticks_eq (h : Tried (frame ++ older) w) (hframe : Frame frame older) :
    ticks frame + frame.countP Deed.skips = 82524 + (beat older).lead ∧
      frame.countP Deed.skips ≤ (beat older).done % 2 := by
  obtain ⟨d, recent, rfl, hrecent, htick, hplace, hbefore⟩ := hframe.ended h
  have hbeat := hbefore.onBeat
  rw [beat_append hrecent hframe.opened] at hbeat
  have hpassed : ticks recent + recent.countP Deed.skips = 82523 + (beat older).lead :=
    hbeat.passed_of_place hplace
  have hskips : ¬d.skips = true := by
    rw [Deed.skips, Timing.skips_of_place (by omega), Bool.and_false]
    exact Bool.false_ne_true
  have hparity : recent.countP Deed.skips ≤ (beat older).done % 2 := hbeat.parity
  rw [ticks, List.countP_cons_of_pos htick, List.countP_cons_of_neg hskips]
  rw [ticks] at hpassed
  exact ⟨by omega, hparity⟩

/-- The beam has passed every entry, so each is written once. -/
theorem writtenOnce (h : Tried (frame ++ older) w) (hframe : Frame frame older)
    (i : Fin (256 * 240)) : WrittenOnce frame i := by
  obtain ⟨d, recent, rfl, hrecent, htick, hplace, hbefore⟩ := hframe.ended h
  have hpassed := hbefore.onBeat.passed_of_place hplace
  have hpainted := hbefore.painted i
  have hentry : entryPlace i < 82096 := by
    have hi := i.isLt
    rw [entryPlace]
    omega
  have hpixel : ¬d.before.chip.beam.pixel? = some i := by
    intro hp
    have hat := (pixel?_eq_some d.before.chip.timing i).1 hp
    omega
  have hlast := reach_of_tick htick i
  rw [if_neg hpixel] at hlast
  rw [Painted, if_pos (by omega), underWay_append hrecent hframe.opened] at hpainted
  exact hpainted.cons hlast

theorem done_append (hframe : Frame frame older) :
    (beat (frame ++ older)).done = (beat older).done + 1 := by
  obtain ⟨d, recent, rfl, hcompletes, hrecent⟩ := hframe.completed
  obtain ⟨-, hreset, -⟩ := place_of_completes hcompletes
  rw [List.cons_append, beat_of_completes hreset hcompletes, beat_append hrecent hframe.opened]

/-- On the pre-render line a frame is odd when an odd number of frames came before it. -/
theorem oddFrame_eq (h : Tried (frame ++ older) w) (hframe : Frame frame older) {d : Deed β}
    (hd : d ∈ frame) (hbeam : d.before.chip.beam = .beforeSkip) :
    d.before.chip.oddFrame = decide ((beat older).done % 2 = 1) := by
  obtain ⟨last, recent, rfl, hrecent, -, hlast, hbefore⟩ := hframe.ended h
  have hplace : d.before.chip.timing.place = 339 := by
    rw [Timing.place]
    change (d.before.chip.beam.index + 341) % 89342 = 339
    rw [hbeam, Beam.index_beforeSkip]
  rcases List.mem_cons.1 hd with rfl | hd
  · omega
  · obtain ⟨later, earlier, rfl⟩ := List.append_of_mem hd
    have hearlier : ∀ e ∈ earlier, e.opens = false := fun e he =>
      hrecent e (List.mem_append_right _ (List.mem_cons_of_mem _ he))
    rw [List.append_assoc] at hbefore
    obtain ⟨_, htried⟩ := hbefore.of_append
    have hbeat : OnBeat (beat (earlier ++ older)) d.before.chip.timing :=
      (Tried.before htried).onBeat
    rw [beat_append hearlier hframe.opened] at hbeat
    exact hbeat.oddFrame_of_place hplace

end Frame

theorem Period.lead (h : Period frame older) : (beat older).lead = 6818 := by
  obtain ⟨d, hd, hcompletes⟩ := h.follows
  obtain ⟨-, hreset, -⟩ := place_of_completes hcompletes
  cases older with
  | nil => cases hd
  | cons e older =>
    cases hd
    rw [beat_of_completes hreset hcompletes]

theorem Period.ticks_eq (h : Tried (frame ++ older) w) (hperiod : Period frame older) :
    (ticks frame = 89342 ∨ ticks frame = 89341) ∧
      (ticks frame = 89341 ↔ ∃ d ∈ frame, Shortens d) ∧
        (ticks frame = 89341 → (beat older).done % 2 = 1) := by
  obtain ⟨hticks, hparity⟩ := hperiod.toFrame.ticks_eq h
  have hlead := hperiod.lead
  have hshort : 0 < frame.countP Deed.skips ↔ ∃ d ∈ frame, Shortens d := by
    simp only [List.countP_pos_iff, skips_iff]
  refine ⟨by omega, ?_, by omega⟩
  rw [← hshort]
  omega

end

/-- Frames keep their cadence and complete their pictures, whatever is done between the dots. -/
theorem frames_keep_cadence {past : List (Deed β)} {w : Wired Ppu β} (h : Tried past w) :
    (∀ a, (a.after w).chip.frames = w.chip.frames + (⟨a, w⟩ : Deed β).completes.toNat) ∧
    (∀ d rest, past = d :: rest → d.completes = true →
      ∃ frame older, past = frame ++ older ∧ Frame frame older) ∧
    (∀ frame older, past = frame ++ older → Frame frame older → ∀ i, WrittenOnce frame i) ∧
    (∀ d ∈ past, 240 ≤ d.before.chip.beam.scanline.val → ∀ i, Leaves d i) ∧
    (∀ frame older, past = frame ++ older → Period frame older →
      (ticks frame = 89342 ∨ ticks frame = 89341) ∧
      (ticks frame = 89341 ↔ ∃ d ∈ frame, Shortens d) ∧
      ∀ d ∈ frame, d.before.chip.beam = .beforeSkip →
        d.before.chip.oddFrame = decide ((beat older).done % 2 = 1)) ∧
    ∀ frame frame' older, past = frame ++ (frame' ++ older) → Period frame (frame' ++ older) →
      Period frame' older → ¬(ticks frame = 89341 ∧ ticks frame' = 89341) := by
  refine ⟨fun a => frames_after a w, ?_, ?_, ?_, ?_, ?_⟩
  · rintro d rest rfl hd
    exact exists_frame rest hd
  · rintro frame older rfl hframe
    exact hframe.writtenOnce h
  · intro d _ hline i
    exact leaves_of_line hline i
  · rintro frame older rfl hperiod
    obtain ⟨hlength, hshort, -⟩ := hperiod.ticks_eq h
    exact ⟨hlength, hshort, fun d hd hbeam => hperiod.oddFrame_eq h hd hbeam⟩
  · rintro frame frame' older rfl hperiod hperiod' ⟨hshort, hshort'⟩
    obtain ⟨-, -, hodd⟩ := hperiod.ticks_eq h
    obtain ⟨w', h'⟩ := h.of_append
    obtain ⟨-, -, hodd'⟩ := hperiod'.ticks_eq h'
    have hdone := hperiod'.toFrame.done_append
    have hlatest := hodd hshort
    have hprevious := hodd' hshort'
    omega

end

/-! ### A frame that is short -/

section
variable {past : List (Deed (FlatMemory 0x4000))} {w : Wired Ppu (FlatMemory 0x4000)}

theorem Tried.dot (h : Tried past w) (hbus : w.bus.holes = []) : ∃ w',
    Tried (⟨.dot, w⟩ :: past) w' ∧ w'.bus.holes = [] ∧ w'.chip.timing = w.chip.timing.next ∧
      (⟨.dot, w⟩ : Deed (FlatMemory 0x4000)).isTick = true ∧
      (⟨.dot, w⟩ : Deed (FlatMemory 0x4000)).completes = (w.chip.timing.place == 82523) := by
  obtain ⟨t, w', hstep, hb⟩ : ∃ (t : Tick) (w' : Wired Ppu (FlatMemory 0x4000)),
      step w = .ok t w' ∧ w'.bus.holes = [] := by
    obtain ⟨b, hstep, hb⟩ := does_step (FlatMemory.steady w.bus) w.chip w.bus ⟨hbus, rfl⟩
    exact ⟨_, _, hstep, hb.1⟩
  have hsome : (⟨.dot, w⟩ : Deed (FlatMemory 0x4000)).tick? = some t :=
    Deed.tick?_eq_some.2 ⟨rfl, w', hstep⟩
  have htick : (⟨.dot, w⟩ : Deed (FlatMemory 0x4000)).isTick = true := by
    rw [Deed.isTick, hsome, Option.isSome_some]
  have hafter : Act.dot.after w = w' := by rw [Act.after, finish, hstep]
  have htried := hafter ▸ h.act .dot
  cases Deed.moves .dot w with
  | tick _ _ hcompletes ht => exact ⟨w', htried, hb, hafter ▸ ht, htick, hcompletes⟩
  | reset hnot => cases hnot.symm.trans htick
  | still hnot => cases hnot.symm.trans htick

theorem after_writeMask (data : UInt8) (w : Wired Ppu (FlatMemory 0x4000)) :
    (Act.write 0x2001 data).after w =
      ⟨{ w.chip with latch := data, mask := ⟨data⟩ }, w.bus⟩ := by
  have hregister : (0x2001 : UInt16).toNat % 8 = 1 := by decide
  have hwrite : writeRegister 0x2001 data w =
      .ok () ⟨{ w.chip with latch := data, mask := ⟨data⟩ }, w.bus⟩ := by
    unfold writeRegister
    rw [hregister]
    rfl
  rw [Act.after, finish, hwrite]

/-- Dots in a row, short of the end of the frame and of a dot that leaves out the next. -/
theorem exists_run (n : Nat) (h : Tried past w) (hbus : w.bus.holes = [])
    (hstay : ∀ k < n, (w.chip.timing.place + k) % 89342 ≠ 82523 ∧
      ((w.chip.timing.place + k) % 89342 = 339 → w.chip.mask.rendering = false)) :
    ∃ recent w', Tried (recent ++ past) w' ∧ w'.bus.holes = [] ∧ (∀ e ∈ recent, e.opens = false) ∧
      w'.chip.mask = w.chip.mask ∧
      w'.chip.timing.place = (w.chip.timing.place + n) % 89342 := by
  induction n with
  | zero =>
    have hp := w.chip.timing.place_lt
    exact ⟨[], w, h, hbus, fun _ he => absurd he List.not_mem_nil, rfl,
      (Nat.mod_eq_of_lt hp).symm⟩
  | succ n ih =>
    obtain ⟨recent, v, hv, hbv, hrecent, hmask, hplace⟩ :=
      ih fun k hk => hstay k (Nat.lt_succ_of_lt hk)
    obtain ⟨hend, hdraws⟩ := hstay n (Nat.lt_succ_self n)
    obtain ⟨v', hv', hbv', ht, -, hcompletes⟩ := hv.dot hbv
    have hskips : v.chip.timing.skips = false := by
      cases hs : v.chip.timing.skips with
      | false => rfl
      | true =>
        have h339 := Timing.place_of_skips hs
        have hoff := hdraws (hplace.symm.trans h339)
        simp only [Timing.skips, Bool.and_eq_true] at hs
        have hon : v.chip.mask.rendering = true := hs.1.2
        rw [hmask, hoff] at hon
        cases hon
    refine ⟨_, v', hv', hbv', List.forall_mem_cons.2 ⟨?_, hrecent⟩,
      (congrArg Timing.mask ht).trans hmask, ?_⟩
    · rw [Deed.opens, hcompletes, hplace, beq_false_of_ne hend]
      rfl
    · rw [ht, Timing.place_next, hskips, hplace, Bool.toNat_false]
      omega

/-- Dots in a row up to the one that completes the frame. -/
theorem exists_completion (n : Nat) (h : Tried past w) (hbus : w.bus.holes = [])
    (hstay : ∀ k < n, (w.chip.timing.place + k) % 89342 ≠ 82523 ∧
      ((w.chip.timing.place + k) % 89342 = 339 → w.chip.mask.rendering = false))
    (hend : (w.chip.timing.place + n) % 89342 = 82523) :
    ∃ d recent w', Tried (d :: (recent ++ past)) w' ∧ w'.bus.holes = [] ∧ d.completes = true ∧
      (∀ e ∈ recent, e.opens = false) ∧ w'.chip.timing.place = 82524 := by
  obtain ⟨recent, v, hv, hbv, hrecent, -, hplace⟩ := exists_run n h hbus hstay
  rw [hend] at hplace
  obtain ⟨v', hv', hbv', ht, -, hcompletes⟩ := hv.dot hbv
  refine ⟨_, recent, v', hv', hbv', hcompletes.trans (beq_iff_eq.2 hplace), hrecent, ?_⟩
  have hskips := Timing.skips_of_place (t := v.chip.timing) (by omega)
  rw [ht, Timing.place_next, hskips, hplace, Bool.toNat_false]

/-- The first frame from power-up on, with nothing drawn. -/
theorem exists_firstFrame : ∃ (older : List (Deed (FlatMemory 0x4000)))
    (w : Wired Ppu (FlatMemory 0x4000)), Tried older w ∧ w.bus.holes = [] ∧
      (beat older).done = 1 ∧ (∃ d ∈ older.head?, d.completes = true) ∧
      w.chip.timing.place = 82524 := by
  have hstart : (⟨{}, .blank⟩ : Wired Ppu (FlatMemory 0x4000)).chip.timing.place = 0 :=
    (OnBeat.start rfl rfl).clocked.place.trans (Nat.zero_mod 89342)
  have hend : ((⟨{}, .blank⟩ : Wired Ppu (FlatMemory 0x4000)).chip.timing.place + 82523) % 89342 =
      82523 := by
    rw [hstart]
  obtain ⟨d, recent, w, h, hbus, hd, hrecent, hplace⟩ := exists_completion 82523
    (.powerUp FlatMemory.blank) rfl (fun k hk => ⟨by omega, fun _ => rfl⟩) hend
  refine ⟨_, w, h, hbus, ?_, ⟨d, rfl, hd⟩, hplace⟩
  obtain ⟨-, hreset, -⟩ := place_of_completes hd
  have hopened : ∀ e ∈ ([] : List (Deed (FlatMemory 0x4000))).head?, e.opens = true :=
    fun _ he => absurd he (Option.not_mem_none _)
  rw [beat_of_completes hreset hd, beat_append hrecent hopened]
  rfl

omit w in
theorem opens_of_completes (hpast : ∃ d ∈ past.head?, d.completes = true) :
    ∀ d ∈ past.head?, d.opens = true := by
  obtain ⟨e, he, hcompletes⟩ := hpast
  intro d hd
  cases Option.some_inj.1 (he.symm.trans hd)
  rw [Deed.opens, hcompletes, Bool.true_or]

/-- From the end of a frame on, with rendering on, to the dot that may leave out the next. -/
theorem exists_beforeSkip (h : Tried past w) (hbus : w.bus.holes = [])
    (hplace : w.chip.timing.place = 82524) :
    ∃ recent w', Tried (recent ++ past) w' ∧ w'.bus.holes = [] ∧ (∀ e ∈ recent, e.opens = false) ∧
      w'.chip.mask.rendering = true ∧ w'.chip.timing.place = 339 := by
  obtain ⟨v, hv⟩ : ∃ v, v = (Act.write 0x2001 0x18).after w := ⟨_, rfl⟩
  have hwritten := hv ▸ h.act (.write 0x2001 0x18)
  rw [after_writeMask] at hv
  have hplace' : v.chip.timing.place = 82524 := by
    have hbeam : v.chip.timing.beam = w.chip.timing.beam := by rw [hv]; rfl
    rwa [Timing.place, hbeam]
  obtain ⟨second, w', h', hbus', hsecond, hmask, hend⟩ := exists_run 7157 hwritten
    (by rw [hv]; exact hbus) fun k hk => ⟨by omega, by omega⟩
  refine ⟨second ++ [⟨.write 0x2001 0x18, w⟩], w', ?_, hbus', ?_, ?_, ?_⟩
  · rwa [List.append_assoc]
  · rw [List.forall_mem_append, List.forall_mem_singleton]
    exact ⟨hsecond, rfl⟩
  · have hwrote : v.chip.mask = ⟨0x18⟩ := by rw [hv]
    rw [hmask, hwrote]
    decide
  · rw [hend, hplace']

/-- There, after an odd number of frames, it does leave it out. -/
theorem shortens_of_place {recent : List (Deed (FlatMemory 0x4000))}
    (h : Tried (recent ++ past) w) (hrecent : ∀ e ∈ recent, e.opens = false)
    (hopened : ∀ d ∈ past.head?, d.opens = true) (hodd : (beat past).done % 2 = 1)
    (hplace : w.chip.timing.place = 339) (hrendering : w.chip.mask.rendering = true)
    (htick : (⟨.dot, w⟩ : Deed (FlatMemory 0x4000)).isTick = true) :
    Shortens (⟨.dot, w⟩ : Deed (FlatMemory 0x4000)) := by
  have hbeat := h.onBeat
  rw [beat_append hrecent hopened] at hbeat
  refine ⟨htick, ?_, (hbeat.oddFrame_of_place hplace).trans (decide_eq_true hodd), hrendering⟩
  have hindex := w.chip.beam.index_lt
  have hat : (w.chip.beam.index + 341) % 89342 = 339 := hplace
  change w.chip.beam = .beforeSkip
  rw [← Beam.index_inj, Beam.index_beforeSkip]
  omega

/-- After an odd number of frames one more with rendering on. -/
theorem exists_shortFrame (h : Tried past w) (hbus : w.bus.holes = [])
    (hodd : (beat past).done % 2 = 1) (hpast : ∃ d ∈ past.head?, d.completes = true)
    (hplace : w.chip.timing.place = 82524) :
    ∃ frame w', Tried (frame ++ past) w' ∧ Period frame past ∧ ∃ d ∈ frame, Shortens d := by
  have hopened := opens_of_completes hpast
  obtain ⟨recent, v, hv, hbv, hrecent, hrendering, hplace⟩ := exists_beforeSkip h hbus hplace
  obtain ⟨v', hv', hbv', ht, htick, hcompletes⟩ := hv.dot hbv
  have hshortens := shortens_of_place hv hrecent hopened hodd hplace hrendering htick
  have hskips : v.chip.timing.skips = true :=
    (Bool.and_eq_true_iff.1 ((skips_iff _).2 hshortens)).2
  have hplace' : v'.chip.timing.place = 341 := by
    rw [ht, Timing.place_next, hskips, hplace, Bool.toNat_true]
  obtain ⟨d, rest, w', h', -, hd, hrest, -⟩ := exists_completion 82182 hv' hbv'
    (fun k hk => ⟨by omega, by omega⟩) (by rw [hplace'])
  have hdot : (⟨.dot, v⟩ : Deed (FlatMemory 0x4000)).opens = false := by
    rw [Deed.opens, hcompletes, hplace]
    rfl
  refine ⟨d :: (rest ++ ⟨.dot, v⟩ :: recent), w', ?_, ⟨⟨⟨d, _, rfl, hd, ?_⟩, hopened⟩, hpast⟩,
    ⟨.dot, v⟩, ?_, hshortens⟩
  · simpa using h'
  · rw [List.forall_mem_append, List.forall_mem_cons]
    exact ⟨hrest, hdot, hrecent⟩
  · simp

/-- The second frame after power-up, with rendering on. -/
theorem frames_keep_cadence_short : ∃ (frame older : List (Deed (FlatMemory 0x4000)))
    (w : Wired Ppu (FlatMemory 0x4000)), Tried (frame ++ older) w ∧ Period frame older ∧
      ticks frame = 89341 ∧ ∀ i, WrittenOnce frame i := by
  obtain ⟨older, w, h, hbus, hdone, hcompletes, hplace⟩ := exists_firstFrame
  obtain ⟨frame, w', h', hperiod, hshortens⟩ :=
    exists_shortFrame h hbus (by rw [hdone]) hcompletes hplace
  obtain ⟨-, -, honce, -, hcadence, -⟩ := frames_keep_cadence h'
  obtain ⟨-, hshort, -⟩ := hcadence frame older rfl hperiod
  exact ⟨frame, older, w', h', hperiod, hshort.2 hshortens, honce frame older rfl hperiod.toFrame⟩

end
end Ppu
end NesConsole
