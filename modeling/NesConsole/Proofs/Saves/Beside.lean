import NesConsole.Proofs.Outcomes
import NesConsole.Save.BatteryRam

/-! A save file and the temporary beside it. The names of both come from one path, so wherever a
disk has a place for the temporary it has another, in the same directory, for the save file. -/
namespace NesConsole

/-- What follows a text without a slash of its own goes to the last piece of the text. -/
theorem exists_splitOn_append (chars : List Char) : ∃ init last, ∀ more, '/' ∉ more →
    (chars ++ more).splitOn '/' = init ++ [last ++ more] := by
  induction chars with
  | nil => exact ⟨[], [], fun more h => List.splitOn_eq_singleton h⟩
  | cons c chars ih =>
    obtain ⟨init, last, hsplit⟩ := ih
    by_cases hc : c = '/'
    · refine ⟨[] :: init, last, fun more h => ?_⟩
      simp [List.splitOn_cons_eq_if_modifyHead, hc, hsplit more h]
    · cases init with
      | nil =>
        refine ⟨[], c :: last, fun more h => ?_⟩
        simp [List.splitOn_cons_eq_if_modifyHead, hc, hsplit more h]
      | cons piece init =>
        refine ⟨(c :: piece) :: init, last, fun more h => ?_⟩
        simp [List.splitOn_cons_eq_if_modifyHead, hc, hsplit more h]

namespace Location
variable {name : String}

/-- Only names of one or two characters lead elsewhere than down. -/
theorem child_of_long (h : 2 < name.length) (l : Location) : l.child name = l ++ [name] := by
  have hdot : name ≠ "." := fun he => absurd h (he ▸ by decide)
  have hdots : name ≠ ".." := fun he => absurd h (he ▸ by decide)
  rw [child, if_neg hdot, if_neg hdots]

theorem isBase_of_long (h : 2 < name.length) (l : Location) : (l ++ [name]).isBase = false := by
  have hroot : name ≠ "/" := fun he => absurd h (he ▸ by decide)
  have hdots : name ≠ ".." := fun he => absurd h (he ▸ by decide)
  cases l with
  | nil => simp [isBase, hroot, hdots]
  | cons first rest => simp [isBase, hdots]

end Location

namespace Disk
variable {d d' : Disk} {l l' : Location} {path : String}

/-- A suffix without a slash goes to the last name of a path. -/
theorem exists_names (path : String) : ∃ (dirs : List String) (name : String),
    ∀ suffix : String, suffix ≠ "" → '/' ∉ suffix.toList →
      names (path ++ suffix) = dirs ++ [name ++ suffix] := by
  obtain ⟨init, last, hsplit⟩ := exists_splitOn_append path.toList
  let inner := (init.map String.ofList).filter (· != "")
  refine ⟨if path.toList.head? = some '/' then "/" :: inner else inner, String.ofList last,
    fun suffix hne hslash => ?_⟩
  have hparts : ((path ++ suffix).toList.splitOn '/').map String.ofList =
      init.map String.ofList ++ [String.ofList last ++ suffix] := by
    rw [String.toList_append, hsplit _ hslash, List.map_append, List.map_singleton,
      String.ofList_append, String.ofList_toList]
  have hlast : String.ofList last ++ suffix ≠ "" := fun he =>
    hne (String.append_eq_empty_iff.1 he).2
  have hstart : (path ++ suffix).toList.head? = some '/' ↔ path.toList.head? = some '/' := by
    rw [String.toList_append]
    cases path.toList with
    | nil =>
      refine iff_of_false (fun he => hslash ?_) nofun
      exact List.mem_of_head? he
    | cons c chars => rfl
  unfold names
  simp only [hparts, hstart]
  simp only [List.filter_append, List.getLast?_append, List.getLast?_singleton, Option.some_or,
    Option.some.injEq, hlast, if_false]
  rw [List.filter_cons_of_pos (by simpa using hlast), List.filter_nil]
  split <;> rfl

/-! ### Directories that stay -/

theorem follow_append (names more : List String) : d.follow l (names ++ more) =
    (d.follow l names).bind fun l' => d.follow l' more := by
  induction names generalizing l with
  | nil => rfl
  | cons name names ih =>
    simp only [List.cons_append, follow]
    split
    · rfl
    · split
      · rfl
      · exact ih
    · rfl

def Upholds (d d' : Disk) : Prop := ∀ l, d.get? l = some .directory → d'.get? l = some .directory

theorem Upholds.follow (h : d.Upholds d') {names : List String}
    (hfollow : d.follow l names = .ok l') : d'.follow l names = .ok l' := by
  induction names generalizing l with
  | nil => exact hfollow
  | cons name names ih =>
    rw [Disk.follow] at hfollow ⊢
    split at hfollow
    case h_1 => cases hfollow
    case h_3 => cases hfollow
    case h_2 hdir =>
      rw [h l hdir]
      dsimp only
      split at hfollow
      case isTrue => cases hfollow
      case isFalse hlong =>
        rw [if_neg hlong]
        exact ih hfollow

/-- One more name leads down from a directory, or nowhere. -/
theorem follow_long {names : List String} {name : String} (h : 2 < name.length) :
    d.follow l (names ++ [name]) = .ok l' ↔ ∃ dir, d.follow l names = .ok dir ∧
      d.get? dir = some .directory ∧ ¬Location.nameLimit < name.utf8ByteSize ∧
      l' = dir ++ [name] := by
  rw [follow_append]
  cases hdirs : d.follow l names with
  | error e => simp [Except.bind]
  | ok dir =>
    change d.follow dir [name] = .ok l' ↔ _
    simp only [Except.ok.injEq, exists_eq_left', follow, Location.child_of_long h]
    cases hnode : d.get? dir with
    | none => simp
    | some node =>
      cases node with
      | file | closed => simp
      | directory =>
        by_cases hlong : Location.nameLimit < name.utf8ByteSize
        · simp [hlong]
        · simp [hlong, eq_comm]

/-- A path leads where its names do, if it is fit for the host. -/
theorem locate_eq_ok : d.locate path = .ok l ↔ '\x00' ∉ path.toList ∧ path ≠ "" ∧
    ¬Location.pathLimit < path.utf8ByteSize ∧ d.follow [] (names path) = .ok l := by
  unfold locate
  by_cases hzero : '\x00' ∈ path.toList
  · simp [hzero]
  · by_cases hempty : path = ""
    · simp [hempty]
    · by_cases hlong : Location.pathLimit < path.utf8ByteSize
      · simp [hzero, hempty, hlong]
      · simp [hzero, hempty, hlong]

theorem Upholds.locate (h : d.Upholds d') (hlocate : d.locate path = .ok l) :
    d'.locate path = .ok l := by
  obtain ⟨hzero, hempty, hlong, hfollow⟩ := locate_eq_ok.1 hlocate
  exact locate_eq_ok.2 ⟨hzero, hempty, hlong, h.follow hfollow⟩

/-! ### Nodes that change -/

theorem get?_of_not_base (h : l.isBase = false) : d.get? l = d.nodes.lookup l := by
  rw [get?, h]
  rfl

theorem lookup_cons_eq (n : Node) (nodes : List (Location × Node)) (l l' : Location) :
    ((l, n) :: nodes).lookup l' = if l' = l then some n else nodes.lookup l' := by
  rw [List.lookup_cons]
  by_cases h : l' = l
  · simp [h]
  · rw [beq_eq_false_iff_ne.2 h, if_neg h]

theorem lookup_erase (l l' : Location) :
    (d.erase l).nodes.lookup l' = if l' = l then none else d.nodes.lookup l' := by
  unfold erase
  dsimp only
  induction d.nodes with
  | nil => simp
  | cons e nodes ih =>
    obtain ⟨place, node⟩ := e
    by_cases hplace : place = l
    · rw [List.filter_cons_of_neg (by simp [hplace]), ih, lookup_cons_eq, hplace]
      by_cases hl : l' = l <;> simp [hl]
    · rw [List.filter_cons_of_pos (by simpa using hplace), lookup_cons_eq, ih, lookup_cons_eq]
      by_cases hl : l' = place <;> simp [hl, hplace]

theorem get?_erase (h : l.isBase = false) (l' : Location) :
    (d.erase l).get? l' = if l' = l then none else d.get? l' := by
  cases hbase : l'.isBase with
  | true =>
    have hne : l' ≠ l := fun he => by simp [he, h] at hbase
    simp [get?, hbase, hne]
  | false => rw [get?_of_not_base hbase, get?_of_not_base hbase, lookup_erase]

theorem get?_put (h : l.isBase = false) (n : Node) (l' : Location) :
    (d.put l n).get? l' = if l' = l then some n else d.get? l' := by
  cases hbase : l'.isBase with
  | true =>
    have hne : l' ≠ l := fun he => by simp [he, h] at hbase
    simp [get?, hbase, hne]
  | false =>
    have hput : (d.put l n).nodes = (l, n) :: (d.erase l).nodes := rfl
    rw [get?_of_not_base hbase, get?_of_not_base hbase, hput, lookup_cons_eq, lookup_erase]
    by_cases hl : l' = l <;> simp [hl]

theorem upholds_put (h : l.isBase = false) (hnode : d.get? l ≠ some .directory) (n : Node) :
    d.Upholds (d.put l n) := by
  intro l' hdir
  have hne : l' ≠ l := fun he => hnode (he ▸ hdir)
  rw [get?_put h, if_neg hne, hdir]

theorem upholds_erase (h : l.isBase = false) (hnode : d.get? l ≠ some .directory) :
    d.Upholds (d.erase l) := by
  intro l' hdir
  have hne : l' ≠ l := fun he => hnode (he ▸ hdir)
  rw [get?_erase h, if_neg hne, hdir]

/-! ### What is read -/

def contents : Option Node → Except DiskError (Array UInt8)
  | none => .error .notFound
  | some .directory => .error .isDirectory
  | some (.closed e) => .error e
  | some (.file bytes) => .ok bytes

theorem read_of_locate (h : d.locate path = .ok l) : d.read path = contents (d.get? l) := by
  unfold Disk.read
  rw [h]
  simp only [bind, Except.bind]
  cases d.get? l with
  | none => rfl
  | some node => cases node <;> rfl

theorem get?_of_nodes (h : d'.nodes = d.nodes) (l : Location) : d'.get? l = d.get? l := by
  rw [get?, get?, h]

theorem upholds_of_nodes (h : d'.nodes = d.nodes) : d.Upholds d' := fun l hdir =>
  (get?_of_nodes h l).trans hdir

/-- What is to go wrong does not change what is read. -/
theorem read_of_nodes (h : d'.nodes = d.nodes) (path : String) : d'.read path = d.read path := by
  have hget := get?_of_nodes h
  have hfollow (l : Location) (names : List String) : d'.follow l names = d.follow l names := by
    induction names generalizing l with
    | nil => rfl
    | cons name names ih => simp only [follow, hget, ih]
  simp only [Disk.read, locate, hget, hfollow]

end Disk

/-! ### The two places -/

structure Beside (image : String) (d : Disk) (temporary save : Location) : Prop where
  apart : save ≠ temporary
  temporaryIsFree : temporary.isBase = false
  saveIsFree : save.isBase = false
  temporaryAt : d.locate (savePath image ++ ".tmp") = .ok temporary
  saveAt : d.locate (savePath image) = .ok save

namespace Beside
variable {image : String} {d d' : Disk} {temporary save : Location}

theorem uphold (h : Beside image d temporary save) (hd : d.Upholds d') :
    Beside image d' temporary save :=
  { h with temporaryAt := hd.locate h.temporaryAt, saveAt := hd.locate h.saveAt }

/-- Where there is a place for the temporary, there is one for the save file, whose path is the
shorter one. -/
theorem of_locate (h : d.locate (savePath image ++ ".tmp") = .ok temporary) :
    ∃ save, Beside image d temporary save := by
  obtain ⟨dirs, name, hnames⟩ := Disk.exists_names image
  have hsave : Disk.names (savePath image) = dirs ++ [name ++ ".sav"] :=
    hnames ".sav" (by decide) (by decide)
  have htemporary : Disk.names (savePath image ++ ".tmp") = dirs ++ [name ++ ".sav.tmp"] := by
    rw [savePath, String.append_assoc]
    exact hnames ".sav.tmp" (by decide) (by decide)
  have hlong : 2 < (name ++ ".sav").length := by
    rw [String.length_append]
    exact Nat.lt_add_left _ (by decide)
  have hlong' : 2 < (name ++ ".sav.tmp").length := by
    rw [String.length_append]
    exact Nat.lt_add_left _ (by decide)
  obtain ⟨hzero, -, hfits, hfollow⟩ := Disk.locate_eq_ok.1 h
  rw [htemporary, Disk.follow_long hlong'] at hfollow
  obtain ⟨dir, hdirs, hdir, hname, rfl⟩ := hfollow
  rw [String.utf8ByteSize_append] at hfits hname
  have hsizes : ".sav".utf8ByteSize ≤ ".sav.tmp".utf8ByteSize := by decide
  have hname' : ¬Location.nameLimit < (name ++ ".sav").utf8ByteSize := by
    rw [String.utf8ByteSize_append]
    omega
  have hsaveAt : d.locate (savePath image) = .ok (dir ++ [name ++ ".sav"]) := by
    refine Disk.locate_eq_ok.2 ⟨fun hmem => hzero ?_, fun he => ?_, by omega, ?_⟩
    · rw [String.toList_append]
      exact List.mem_append_left _ hmem
    · exact absurd (String.append_eq_empty_iff.1 he).2 (by decide)
    · rw [hsave, Disk.follow_long hlong]
      exact ⟨dir, hdirs, hdir, hname', rfl⟩
  have hapart : dir ++ [name ++ ".sav"] ≠ dir ++ [name ++ ".sav.tmp"] := by simp
  exact ⟨_, hapart, Location.isBase_of_long hlong' dir, Location.isBase_of_long hlong dir, h,
    hsaveAt⟩

/-- A node at the place of the temporary does not show in the save file. -/
theorem read_put (h : Beside image d temporary save)
    (hnode : d.get? temporary ≠ some .directory) (n : Node) :
    (d.put temporary n).read (savePath image) = d.read (savePath image) := by
  have hput := h.uphold (Disk.upholds_put h.temporaryIsFree hnode n)
  rw [Disk.read_of_locate hput.saveAt, Disk.read_of_locate h.saveAt,
    Disk.get?_put h.temporaryIsFree, if_neg h.apart]

/-- A file that takes the name of the save file is what is read there. -/
theorem read_moved (h : Beside image d temporary save)
    (hnode : d.get? temporary ≠ some .directory) (hnode' : d.get? save ≠ some .directory)
    (bytes : Array UInt8) :
    ((d.erase temporary).put save (.file bytes)).read (savePath image) = .ok bytes := by
  have herased := Disk.get?_erase (d := d) h.temporaryIsFree save
  rw [if_neg h.apart] at herased
  have hmoved := (h.uphold (Disk.upholds_erase h.temporaryIsFree hnode)).uphold
    (Disk.upholds_put h.saveIsFree (herased ▸ hnode') (.file bytes))
  rw [Disk.read_of_locate hmoved.saveAt, Disk.get?_put h.saveIsFree, if_pos rfl]
  rfl

end Beside
end NesConsole
