/-
# RestCase.Proofs.Files.Paths — paths below a directory

A path is put together from the path of a directory and the names on the way down from it.  However
the path of the directory is written, the parts of the whole path are its parts and then the names
(`parts_below`), so that the names decide about the order (`before_below`); and if the path leads
anywhere, it leads from the place of the directory down these names (`Tree.locate_below`).
-/
import Mathlib.Data.List.Induction
import RestCase.Files.Tree
import RestCase.Proofs.Decoding.Records

namespace RestCase.Files

/-! ## Names -/

/-- A name that an entry of a directory can have. -/
structure IsName (name : String) : Prop where
  not_empty : name ≠ ""
  not_same : name ≠ "."
  not_parent : name ≠ ".."
  not_slash : '/' ∉ name.toList

instance (name : String) : Decidable (IsName name) :=
  decidable_of_iff (name ≠ "" ∧ name ≠ "." ∧ name ≠ ".." ∧ '/' ∉ name.toList)
    ⟨fun ⟨hempty, hsame, hparent, hslash⟩ => ⟨hempty, hsame, hparent, hslash⟩,
    fun h => ⟨h.not_empty, h.not_same, h.not_parent, h.not_slash⟩⟩

theorem IsName.not_idle {name : String} (h : IsName name) : isIdle name = false := by
  simp [isIdle, h.not_empty, h.not_same]

theorem IsName.writtenParts_eq {name : String} (h : IsName name) : writtenParts name = [name] := by
  have hslash : ∀ c ∈ name.toList, (c == '/') = false := fun c hc =>
    beq_eq_false_iff_ne.2 fun heq => h.not_slash (heq ▸ hc)
  rw [writtenParts, List.splitOnP_eq_singleton hslash, List.map_singleton, String.ofList_toList]

theorem writtenParts_append_slash (front back : String) :
    writtenParts (front ++ "/" ++ back) = writtenParts front ++ writtenParts back := by
  have htext : (front ++ "/" ++ back).toList = front.toList ++ '/' :: back.toList := by simp
  rw [writtenParts, htext, List.splitOnP_append_cons _ _ rfl, List.map_append, writtenParts,
    writtenParts]

/-! ## Joining a name -/

/-- A name is joined to what stands before the slash at the end of a directory, if there is one. -/
theorem exists_join_eq {directory name : String} (hname : IsName name) (hne : directory ≠ "") :
    ∃ front, join directory name = front ++ "/" ++ name ∧
      (directory = front ∨ directory = front ++ "/") := by
  have hrelative : isAbsolute name = false := by
    rw [isAbsolute, beq_eq_false_iff_ne]
    exact fun hhead => hname.not_slash (List.mem_of_mem_head? hhead)
  have hempty : directory.isEmpty = false := by simpa [String.isEmpty_iff] using hne
  unfold join
  rw [hrelative, hempty]
  simp only [Bool.false_eq_true, if_false]
  split
  next hlast =>
    obtain ⟨front, hfront⟩ := List.getLast?_eq_some_iff.1 (beq_iff_eq.1 hlast)
    have hdirectory : directory = String.ofList front ++ "/" := by
      rw [← String.toList_inj, hfront]
      simp
    exact ⟨String.ofList front, by rw [hdirectory], .inr hdirectory⟩
  next => exact ⟨directory, rfl, .inl rfl⟩

theorem join_empty (name : String) : join "" name = name := by
  unfold join
  split <;> rfl

theorem join_ne_empty {directory name : String} (h : IsName name) : join directory name ≠ "" := by
  by_cases hempty : directory = ""
  · rw [hempty, join_empty]
    exact h.not_empty
  · obtain ⟨front, hjoin, -⟩ := exists_join_eq h hempty
    rw [hjoin, ← String.toList_inj.ne]
    simp

theorem parts_join (directory : String) {name : String} (h : IsName name) :
    parts (join directory name) = parts directory ++ [name] := by
  have hname : parts name = [name] := by
    rw [parts, h.writtenParts_eq, List.filter_cons_of_pos (by simp [h.not_idle]), List.filter_nil]
  have hslash : ∀ front, parts (front ++ "/" ++ name) = parts front ++ [name] := fun front => by
    rw [← hname, parts, writtenParts_append_slash, List.filter_append, parts, parts]
  by_cases hempty : directory = ""
  · rw [hempty, join_empty, hname]
    rfl
  · obtain ⟨front, hjoin, rfl | rfl⟩ := exists_join_eq h hempty
    · rw [hjoin, hslash]
    · have hend : parts (front ++ "/") = parts front := by
        have hnone : parts "" = [] := by decide
        rw [← String.append_empty (s := front ++ "/"), parts, writtenParts_append_slash,
          List.filter_append]
        exact (congrArg _ hnone).trans (List.append_nil _)
      rw [hjoin, hslash, hend]

/-! ## Ways down -/

/-- The path of what a list of names leads to from a directory, a fold of `join`. -/
def below (directory : String) (way : Place) : String := way.foldl join directory

theorem parts_below (directory : String) {way : Place} (h : ∀ name ∈ way, IsName name) :
    parts (below directory way) = parts directory ++ way := by
  induction way generalizing directory with
  | nil => exact (List.append_nil _).symm
  | cons name r ih =>
    rw [List.forall_mem_cons] at h
    have hrest : parts (below directory (name :: r)) = parts (join directory name) ++ r :=
      ih (join directory name) h.2
    rw [hrest, parts_join directory h.1, List.append_assoc, List.singleton_append]

/-! ## The order of paths -/

/-- A path comes before another one: part by part, the first difference decides. -/
def Before (path path' : String) : Prop := List.Lex (· < ·) (parts path) (parts path')

theorem before_irrefl (path : String) : ¬ Before path path := List.lex_irrefl String.lt_irrefl _

theorem before_asymm {path path' : String} (h : Before path path') : ¬ Before path' path :=
  List.lex_asymm String.lt_asymm h

/-- Below a directory the ways decide. -/
theorem before_below (directory : String) {way way' : Place} (hway : ∀ name ∈ way, IsName name)
    (hway' : ∀ name ∈ way', IsName name) (h : List.Lex (· < ·) way way') :
    Before (below directory way) (below directory way') := by
  rw [Before, parts_below directory hway, parts_below directory hway']
  exact List.append_left_lt h

/-! ## Where paths lead to -/

/-- A step down a name ends below where it began, which is a directory. -/
theorem follow_name {root : Entry} {place x : Place} {name : String} (hname : IsName name)
    (h : follow root place name = .ok x) :
    x = place ++ [name] ∧ follow root place "" = .ok place := by
  unfold follow at h ⊢
  split at h
  next => cases h
  next => cases h
  next l hl =>
    simp only [hname.not_idle, Bool.false_eq_true, if_false, hname.not_parent] at h
    split at h
    next => cases h
    next =>
      split at h
      next => exact ⟨(Except.ok.inj h).symm, rfl⟩
      next => cases h

namespace Tree

variable {t : Tree}

/-- What a path has to be like to lead anywhere, and where it leads to. -/
theorem locate_eq_ok_iff {path : String} {x : Place} :
    t.locate path = .ok x ↔ path ≠ "" ∧ '\x00' ∉ path.toList ∧ path.utf8ByteSize ≤ 4095 ∧
      (writtenParts path).foldlM (follow t.rootEntry) (if isAbsolute path then [] else t.here)
        = .ok x := by
  unfold locate
  split
  next hempty => simp [String.isEmpty_iff.1 hempty]
  next hempty =>
    have hne : path ≠ "" := fun heq => hempty (String.isEmpty_iff.2 heq)
    split
    next hzero => simp [List.contains_iff_mem.1 hzero]
    next hzero =>
      split
      next hlong => simp [Nat.not_le.2 hlong]
      next hlong => simp [hne, mt List.contains_iff_mem.2 hzero, Nat.not_lt.1 hlong]

/-- **A path below a directory leads down from it**: `locate` puts one name behind the place. -/
theorem exists_locate_of_join {directory name : String} (hname : IsName name)
    (hne : directory ≠ "") {x : Place} (h : t.locate (join directory name) = .ok x) :
    ∃ place, t.locate directory = .ok place ∧ x = place ++ [name] := by
  obtain ⟨front, hjoin, hdirectory⟩ := exists_join_eq hname hne
  rw [hjoin, locate_eq_ok_iff, writtenParts_append_slash, hname.writtenParts_eq,
    List.foldlM_append] at h
  obtain ⟨-, hzero, hlong, hfold⟩ := h
  obtain ⟨place, hplace, hstep⟩ := Decoding.bind_eq_ok_iff.1 hfold
  simp only [List.foldlM_cons, List.foldlM_nil, bind_pure] at hstep
  obtain ⟨rfl, hsame⟩ := follow_name hname hstep
  refine ⟨place, ?_, rfl⟩
  rw [String.toList_append, List.mem_append, not_or] at hzero
  rw [String.utf8ByteSize_append, String.utf8ByteSize_append] at hlong
  rcases hdirectory with rfl | rfl
  · have hhead : isAbsolute (directory ++ "/" ++ name) = isAbsolute directory := by
      have hsome : directory.toList ≠ [] := fun hnil => hne (String.toList_eq_nil_iff.1 hnil)
      obtain ⟨c, r, hcr⟩ := List.exists_cons_of_ne_nil hsome
      simp [isAbsolute, hcr]
    rw [hhead] at hplace
    refine locate_eq_ok_iff.2 ⟨hne, fun hmem => hzero.1 ?_, by omega, hplace⟩
    rw [String.toList_append]
    exact List.mem_append_left _ hmem
  · have hhead : isAbsolute (front ++ "/" ++ name) = isAbsolute (front ++ "/") := by
      cases hfront : front.toList with
      | nil => simp [isAbsolute, hfront]
      | cons c r => simp [isAbsolute, hfront]
    have hparts : writtenParts (front ++ "/") = writtenParts front ++ [""] := by
      have hempty : writtenParts "" = [""] := by decide
      rw [← String.append_empty (s := front ++ "/"), writtenParts_append_slash, hempty]
    rw [hhead] at hplace
    refine locate_eq_ok_iff.2 ⟨hne, hzero.1, by rw [String.utf8ByteSize_append]; omega, ?_⟩
    rw [hparts, List.foldlM_append, hplace]
    exact Decoding.bind_eq_ok_iff.2 ⟨place, rfl, by rw [List.foldlM_cons, hsame]; rfl⟩

/-- The same for a way down, name by name. -/
theorem locate_below {directory : String} (hne : directory ≠ "") {place x : Place}
    (hdirectory : t.locate directory = .ok place) {way : Place} (hway : ∀ name ∈ way, IsName name)
    (h : t.locate (below directory way) = .ok x) : x = place ++ way := by
  -- a path ends in its last name, so the way is taken apart from its end
  induction way using List.reverseRecOn generalizing x with
  | nil =>
    rw [List.append_nil]
    exact Except.ok.inj (h.symm.trans hdirectory)
  | append_singleton way name ih =>
    have hname : IsName name := hway name (by simp)
    have hfront : ∀ n ∈ way, IsName n := fun n hn => hway n (List.mem_append_left _ hn)
    have hsome : below directory way ≠ "" := by
      cases way using List.reverseRecOn with
      | nil => exact hne
      | append_singleton way last =>
        rw [below, List.foldl_append]
        exact join_ne_empty (hfront last (by simp))
    rw [below, List.foldl_append] at h
    obtain ⟨y, hy, rfl⟩ := exists_locate_of_join hname hsome h
    rw [ih hfront hy, List.append_assoc]

end Tree

end RestCase.Files
