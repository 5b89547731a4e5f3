import Mathlib.Data.List.Pairwise
import NesConsole.VideoBus
import NesConsole.MainBus

/-! Maps made by calls that connect devices, some of which are refused. The windows of such a map
are the calls that succeeded. No two of them share an address, so that an address has one owner at
most, for good. -/
namespace NesConsole
variable {τ σ : Type} {w v : Window τ} {m m' : AddressMap τ} {limit address : UInt16} {owner : τ}

/-! ### Windows -/

namespace Window

theorem holds_iff : w.holds address = true ↔ w.first ≤ address ∧ address ≤ w.last := by
  simp [holds]

def Apart (v w : Window τ) : Prop := ∀ address, v.holds address = true → w.holds address = false

instance : Std.Symm (Apart (τ := τ)) where
  symm v w h address hw := by
    by_contra hv
    rw [h address (by simpa using hv)] at hw
    cases hw

def Fits (limit : UInt16) (w : Window τ) : Prop := w.first ≤ w.last ∧ w.last ≤ limit

def Meets (w : Window τ) (owned : UInt16 → Prop) (address : UInt16) : Prop :=
  w.holds address = true ∧ owned address ∧
    ∀ other, w.holds other = true → owned other → address ≤ other

end Window

namespace AddressMap

def Owned (ws : List (Window τ)) (address : UInt16) : Prop := ∃ w ∈ ws, w.holds address = true

/-! ### The lowest owned address of a range -/

/-- Where windows that are not empty meet a range, the lowest address of both is the higher of their
two beginnings. -/
theorem lowest_of_meeting {first last : UInt16} (hw : w.first ≤ w.last) (hrange : first ≤ last)
    (hmeet : w.first ≤ last ∧ first ≤ w.last) :
    let lowest := if w.first ≤ first then first else w.first
    (w.holds lowest = true ∧ first ≤ lowest ∧ lowest ≤ last) ∧
      ∀ other, w.holds other = true → first ≤ other → lowest ≤ other := by
  simp only [Window.holds_iff, UInt16.le_iff_toNat_le] at *
  split <;> exact ⟨by omega, fun other _ _ => by omega⟩

theorem firstOwned?_eq_some {v : Window τ} (hfit : ∀ w ∈ m.windows, w.first ≤ w.last)
    (hrange : v.first ≤ v.last) (h : m.firstOwned? v.first v.last = some address) :
    v.Meets (Owned m.windows) address := by
  obtain ⟨hmem, hleast⟩ := List.min?_eq_some_iff.1 h
  simp only [List.mem_map, List.mem_filter, Bool.and_eq_true, decide_eq_true_eq] at hmem hleast
  obtain ⟨w, ⟨hw, hmeet⟩, rfl⟩ := hmem
  obtain ⟨⟨hholds, hfirst, hlast⟩, -⟩ := lowest_of_meeting (hfit w hw) hrange hmeet
  refine ⟨Window.holds_iff.2 ⟨hfirst, hlast⟩, ⟨w, hw, hholds⟩, fun other hother howned => ?_⟩
  obtain ⟨u, hu, huother⟩ := howned
  obtain ⟨hfrom, hto⟩ := Window.holds_iff.1 hother
  obtain ⟨hufrom, huto⟩ := Window.holds_iff.1 huother
  have humeet : u.first ≤ v.last ∧ v.first ≤ u.last :=
    ⟨UInt16.le_trans hufrom hto, UInt16.le_trans hfrom huto⟩
  exact UInt16.le_trans (hleast _ ⟨u, ⟨hu, humeet⟩, rfl⟩)
    ((lowest_of_meeting (hfit u hu) hrange humeet).2 other huother hfrom)

theorem firstOwned?_eq_none {v : Window τ} (h : m.firstOwned? v.first v.last = none) :
    ∀ w ∈ m.windows, w.Apart v := by
  intro w hw a ha
  rw [firstOwned?, List.min?_eq_none_iff, List.map_eq_nil_iff, List.filter_eq_nil_iff] at h
  by_contra hv
  obtain ⟨hwfrom, hwto⟩ := Window.holds_iff.1 ha
  obtain ⟨hvfrom, hvto⟩ := Window.holds_iff.1 (by simpa using hv : v.holds a = true)
  have hmeet : w.first ≤ v.last ∧ v.first ≤ w.last :=
    ⟨UInt16.le_trans hwfrom hvto, UInt16.le_trans hvfrom hwto⟩
  exact h w hw (by simpa using hmeet)

/-! ### One call -/

def grant? (m : AddressMap τ) (w : Window τ) : Except BusError (AddressMap τ) :=
  m.connect w.owner w.first w.last

def afterCall (m : AddressMap τ) (w : Window τ) : AddressMap τ :=
  match m.grant? w with
  | .ok m' => m'
  | .error _ => m

structure Tidy (m : AddressMap τ) : Prop where
  fits : ∀ w ∈ m.windows, w.Fits m.limit
  apart : m.windows.Pairwise Window.Apart

def Refuses (limit : UInt16) (taken : List (Window τ)) (w : Window τ) (e : BusError) : Prop :=
  w.last < w.first ∧ e = .invalidRange w.first w.last ∨
  w.first ≤ w.last ∧ limit < w.last ∧ e = .outOfRange w.first w.last limit ∨
  w.Fits limit ∧ ∃ address, w.Meets (Owned taken) address ∧ e = .overlap address

/-- A call is refused for the first of three causes, and else adds its window. -/
theorem Tidy.grant? (h : m.Tidy) (w : Window τ) : match m.grant? w with
    | .error e => Refuses m.limit m.windows w e
    | .ok m' => w.Fits m.limit ∧ (∀ v ∈ m.windows, v.Apart w) ∧
        m' = { m with windows := m.windows ++ [w] } := by
  unfold AddressMap.grant? connect
  by_cases hrange : w.last < w.first
  case pos =>
    rw [if_pos hrange]
    exact .inl ⟨hrange, rfl⟩
  have hproper : w.first ≤ w.last := UInt16.not_lt.1 hrange
  by_cases hlimit : m.limit < w.last
  case pos =>
    rw [if_neg hrange, if_pos hlimit]
    exact .inr (.inl ⟨hproper, hlimit, rfl⟩)
  have hfits : w.Fits m.limit := ⟨hproper, UInt16.not_lt.1 hlimit⟩
  rw [if_neg hrange, if_neg hlimit]
  cases howned : m.firstOwned? w.first w.last with
  | some address =>
    have hmeets := firstOwned?_eq_some (fun v hv => (h.fits v hv).1) hproper howned
    exact .inr (.inr ⟨hfits, address, hmeets, rfl⟩)
  | none => exact ⟨hfits, firstOwned?_eq_none howned, rfl⟩

theorem Tidy.of_grant? (h : m.Tidy) (hgrant : m.grant? w = .ok m') : m'.Tidy := by
  have hr := h.grant? w
  rw [hgrant] at hr
  obtain ⟨hfits, hapart, rfl⟩ := hr
  refine ⟨fun v hv => ?_, List.pairwise_append.2 ⟨h.apart, List.pairwise_singleton _ _, ?_⟩⟩
  · rcases List.mem_append.1 hv with hv | hv
    · exact h.fits v hv
    · exact List.mem_singleton.1 hv ▸ hfits
  · intro v hv u hu
    exact List.mem_singleton.1 hu ▸ hapart v hv

theorem Tidy.afterCall (h : m.Tidy) (w : Window τ) : (m.afterCall w).Tidy := by
  unfold AddressMap.afterCall
  cases hgrant : m.grant? w with
  | ok m' => exact h.of_grant? hgrant
  | error e => exact h

/-! ### Sequences of calls -/

def afterCalls (m : AddressMap τ) (calls : List (Window τ)) : AddressMap τ :=
  calls.foldl afterCall m

def granted (m : AddressMap τ) : List (Window τ) → List (Window τ)
  | [] => []
  | w :: ws => match m.grant? w with
    | .ok m' => w :: granted m' ws
    | .error _ => granted m ws

theorem granted_append (calls later : List (Window τ)) :
    m.granted (calls ++ later) = m.granted calls ++ (m.afterCalls calls).granted later := by
  induction calls generalizing m with
  | nil => rfl
  | cons w ws ih =>
    have hstep : m.afterCalls (w :: ws) = (m.afterCall w).afterCalls ws := rfl
    rw [List.cons_append, granted, granted, hstep, afterCall]
    cases m.grant? w with
    | ok m' => exact congrArg (w :: ·) ih
    | error e => exact ih

theorem Tidy.afterCalls (h : m.Tidy) (calls : List (Window τ)) : (m.afterCalls calls).Tidy := by
  induction calls generalizing m with
  | nil => exact h
  | cons w ws ih => exact ih (h.afterCall w)

/-- The windows of a map are the calls that succeeded, in their order, after those it had. -/
theorem Tidy.afterCalls_eq (h : m.Tidy) (calls : List (Window τ)) :
    m.afterCalls calls = { m with windows := m.windows ++ m.granted calls } := by
  induction calls generalizing m with
  | nil => rw [granted, List.append_nil]; rfl
  | cons w ws ih =>
    have hrest := ih (h.afterCall w)
    have hr := h.grant? w
    rw [granted]
    change (m.afterCall w).afterCalls ws = _
    rw [hrest]
    unfold AddressMap.afterCall
    cases hgrant : m.grant? w with
    | ok m' =>
      rw [hgrant] at hr
      obtain ⟨-, -, rfl⟩ := hr
      simp
    | error e => rfl

theorem tidy_empty (limit : UInt16) : (⟨limit, []⟩ : AddressMap τ).Tidy :=
  ⟨nofun, .nil⟩

/-! ### Owners -/

theorem owner?_eq_none (h : ¬Owned m.windows address) : m.owner? address = none := by
  rw [owner?, List.find?_eq_none.2 fun w hw hholds => h ⟨w, hw, hholds⟩]
  rfl

theorem Tidy.owner?_eq_some (h : m.Tidy) (hw : w ∈ m.windows) (hholds : w.holds address = true) :
    m.owner? address = some w.owner ∧ ∀ v ∈ m.windows, v.holds address = true → v = w := by
  have hunique : ∀ v ∈ m.windows, v.holds address = true → v = w := by
    intro v hv hva
    by_contra hne
    rw [h.apart.forall hv hw hne address hva] at hholds
    cases hholds
  refine ⟨?_, hunique⟩
  unfold owner?
  cases hfind : m.windows.find? (·.holds address) with
  | none => exact absurd hholds (List.find?_eq_none.1 hfind w hw)
  | some v =>
    have hv := List.find?_some hfind
    rw [hunique v (List.mem_of_find?_eq_some hfind) hv]
    rfl

theorem read_of_owner {devices : Devices τ σ} (h : m.owner? address = some owner) :
    m.read devices address = devices.read owner address := by
  rw [read, route, h]

theorem write_of_owner {devices : Devices τ σ} (h : m.owner? address = some owner) (data : UInt8) :
    m.write devices address data = devices.write owner address data := by
  rw [write, route, h]

theorem read_unowned {devices : Devices τ σ} (h : m.owner? address = none) (s : σ) :
    m.read devices address s = .error (.unmapped address) s := by
  rw [read, route, h]
  rfl

theorem write_unowned {devices : Devices τ σ} (h : m.owner? address = none) (data : UInt8) (s : σ) :
    m.write devices address data s = .error (.unmapped address) s := by
  rw [write, route, h]
  rfl

/-- What accesses at an address come to where the windows `taken` have owners: they reach the owner
of the one window that holds it, or no device. -/
def Routes (taken : List (Window τ)) (devices : Devices τ σ) (m : AddressMap τ)
    (address : UInt16) : Prop :=
  (∃ w ∈ taken, w.holds address = true ∧ (∀ v ∈ taken, v.holds address = true → v = w) ∧
    m.owner? address = some w.owner ∧ m.read devices address = devices.read w.owner address ∧
    ∀ data, m.write devices address data = devices.write w.owner address data) ∨
  ¬Owned taken address ∧ m.owner? address = none ∧ ∀ s,
    m.read devices address s = .error (.unmapped address) s ∧
    ∀ data, m.write devices address data s = .error (.unmapped address) s

theorem Tidy.routes (h : m.Tidy) (devices : Devices τ σ) (address : UInt16) :
    Routes m.windows devices m address := by
  by_cases howned : Owned m.windows address
  · obtain ⟨w, hw, hholds⟩ := howned
    obtain ⟨howner, hunique⟩ := h.owner?_eq_some hw hholds
    exact .inl ⟨w, hw, hholds, hunique, howner, read_of_owner howner, write_of_owner howner⟩
  · have hnone := owner?_eq_none howned
    exact .inr ⟨howned, hnone, fun s => ⟨read_unowned hnone s, fun data =>
      write_unowned hnone data s⟩⟩

/-- An owner stays one through all calls to come. -/
theorem Tidy.owner?_afterCalls (h : m.Tidy) (calls : List (Window τ))
    (howner : m.owner? address = some owner) :
    (m.afterCalls calls).owner? address = some owner := by
  rw [h.afterCalls_eq]
  unfold owner? at howner ⊢
  rw [Option.map_eq_some_iff] at howner
  obtain ⟨w, hfind, rfl⟩ := howner
  rw [List.find?_append, hfind]
  rfl

/-- Calls that connect devices are refused for an empty range, then for one that leaves the space,
then at the lowest address that has an owner already, and change nothing when they are. Those that
succeed have no address in common. Each owns its addresses for good, and accesses reach it there
and no device elsewhere. -/
theorem calls_own_exclusively (limit : UInt16) (calls : List (Window τ)) (devices : Devices τ σ) :
    let empty : AddressMap τ := ⟨limit, []⟩
    let m := empty.afterCalls calls
    let taken := empty.granted calls
    (∀ w, match m.grant? w with
      | .error e => Refuses limit taken w e ∧ m.afterCall w = m
      | .ok m' => w.Fits limit ∧ (∀ v ∈ taken, v.Apart w) ∧ m.afterCall w = m' ∧
          empty.granted (calls ++ [w]) = taken ++ [w]) ∧
    taken.Pairwise Window.Apart ∧
    (∀ address, Routes taken devices m address) ∧
    ∀ later address owner, m.owner? address = some owner →
      (m.afterCalls later).owner? address = some owner := by
  intro empty m taken
  have htidy : m.Tidy := (tidy_empty limit).afterCalls calls
  have hm : m = ⟨limit, taken⟩ := (tidy_empty limit).afterCalls_eq calls
  have hlimit : m.limit = limit := by rw [hm]
  have hwindows : m.windows = taken := by rw [hm]
  refine ⟨fun w => ?_, hwindows ▸ htidy.apart, hwindows ▸ htidy.routes devices,
    fun later address owner => htidy.owner?_afterCalls later⟩
  have hgrant := htidy.grant? w
  have hnext : empty.granted (calls ++ [w]) = taken ++ m.granted [w] := granted_append calls [w]
  rw [hlimit, hwindows] at hgrant
  rw [hnext, afterCall, granted]
  cases hw : m.grant? w with
  | error e =>
    rw [hw] at hgrant
    exact ⟨hgrant, rfl⟩
  | ok m' =>
    rw [hw] at hgrant
    exact ⟨hgrant.1, hgrant.2.1, rfl, rfl⟩

abbrev lowerOwned : AddressMap Nat := (⟨0xFF, []⟩ : AddressMap Nat).afterCalls [⟨0, 0x00, 0x7F⟩]

theorem calls_own_exclusively_conflict :
    lowerOwned.grant? ⟨1, 0x40, 0xFF⟩ = .error (.overlap 0x40) ∧
    lowerOwned.afterCall ⟨1, 0x40, 0xFF⟩ = lowerOwned ∧
    ∀ later, (lowerOwned.afterCalls later).owner? 0x40 = some 0 := by
  have hgrant : lowerOwned.grant? ⟨1, 0x40, 0xFF⟩ = .error (.overlap 0x40) := rfl
  let silent : Devices Nat Unit := ⟨fun _ _ => pure 0, fun _ _ _ => pure ()⟩
  obtain ⟨hanswer, -, -, hstays⟩ := calls_own_exclusively 0xFF [⟨0, 0x00, 0x7F⟩] silent
  have hrefused := hanswer ⟨1, 0x40, 0xFF⟩
  rw [hgrant] at hrefused
  exact ⟨hgrant, hrefused.2, fun later => hstays later 0x40 0 (by decide)⟩

/-! Both maps of the console are made by calls, none of which is refused. -/

example : (⟨0xFFFF, []⟩ : AddressMap MainDevice).afterCalls mainMap.windows = mainMap := by decide

example : (⟨0x3FFF, []⟩ : AddressMap VideoDevice).afterCalls videoMap.windows = videoMap := by
  decide

end AddressMap
end NesConsole
