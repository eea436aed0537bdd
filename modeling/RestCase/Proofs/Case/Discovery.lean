/-
# RestCase.Proofs.Case.Discovery — the case files of a directory

A case file is known by its name, of which the part after the last dot counts
(`endingOf?_eq_some_iff`).  The case files of a directory are the ones in it and in the directories
below it, at any depth, and nothing else (`mem_caseFiles_iff`).  They are put in the order of the
ways to them, name by name, where the first difference decides; the order is strict, so that none
comes twice (`pairwise_caseFiles`).

Boundary: entries of one directory have different names.  That is what `Files.Sound` asks of a tree,
and `nodup_filesBelow` rests on it.
-/
import RestCase.Case.Loading
import RestCase.Proofs.Chars.Search
import RestCase.Proofs.Files.Places

namespace RestCase

open Files (Entry Place Sound IsName below entryAt?)

/-! ## Names of case files -/

namespace Files

/-- The ending of a name is what comes after its last dot, if something comes before it: what
`endingOf?` finds. -/
def HasEnding (name ending : String) : Prop :=
  ∃ stem, stem ≠ [] ∧ name.toList = stem ++ '.' :: ending.toList ∧ '.' ∉ ending.toList

theorem endingOf?_of_not_mem {name : String} (h : '.' ∉ name.toList) : endingOf? name = none := by
  have hall := Chars.afterLast_of_not_mem h
  simp [endingOf?, hall]

theorem endingOf?_of_eq {name : String} {stem tail : List Char}
    (hname : name.toList = stem ++ '.' :: tail) (htail : '.' ∉ tail) :
    endingOf? name = if stem = [] then none else some (String.ofList tail) := by
  -- there is a dot, so the tail is not the whole name
  have hlonger : tail.length ≠ (stem ++ '.' :: tail).length := by
    rw [List.length_append, List.length_cons]
    omega
  unfold endingOf?
  simp only [hname, Chars.afterLast_append stem htail, Chars.take_append_mark,
    decide_eq_false hlonger, Bool.false_or, List.isEmpty_iff]

theorem endingOf?_eq_some_iff {name ending : String} :
    endingOf? name = some ending ↔ HasEnding name ending := by
  constructor
  · intro h
    by_cases hdot : '.' ∈ name.toList
    · obtain ⟨stem, tail, hname, htail⟩ := Chars.exists_last_of_mem hdot
      rw [endingOf?_of_eq hname htail] at h
      split at h
      next => cases h
      next hstem =>
        obtain rfl := Option.some.inj h
        exact ⟨stem, hstem, by rw [hname, String.toList_ofList], by rwa [String.toList_ofList]⟩
    · rw [endingOf?_of_not_mem hdot] at h
      cases h
  · rintro ⟨stem, hstem, hname, hending⟩
    rw [endingOf?_of_eq hname hending, if_neg hstem, String.ofList_toList]

end Files

namespace Loading

/-- The name ends in `yaml` or `yml`: what `isCaseFile` decides. -/
def IsCaseName (name : String) : Prop :=
  Files.HasEnding name "yaml" ∨ Files.HasEnding name "yml"

theorem isCaseFile_eq_true_iff {name : String} : isCaseFile name = true ↔ IsCaseName name := by
  rw [isCaseFile_iff, Files.endingOf?_eq_some_iff, Files.endingOf?_eq_some_iff, IsCaseName]

/-- A name that only consists of a dot and an ending has no ending. -/
example : isCaseFile ".yaml" = false ∧ isCaseFile "..yaml" = true ∧
    isCaseFile "case.YAML" = false ∧ isCaseFile "case.yaml.bak" = false := by decide

/-! ## The case files of a directory -/

/-- The way leads from the entry to a file that has the name of a case file. -/
structure LeadsToCase (e : Entry) (way : Place) : Prop where
  file : ∃ text, entryAt? way e = some (.file text)
  named : ∃ name, way.getLast? = some name ∧ IsCaseName name

/-- The way leads from the entry to a case file (`LeadsToCase`), or the entry is a file itself. -/
def LeadsToFile (e : Entry) (way : Place) : Prop :=
  (way = [] ∧ e.isDirectory = false) ∨ LeadsToCase e way

theorem not_leadsToCase_nil (e : Entry) : ¬ LeadsToCase e [] := by
  rintro ⟨-, name, hlast, -⟩
  cases hlast

theorem not_leadsToCase_file (text : Option String) (way : Place) :
    ¬ LeadsToCase (.file text) way := by
  cases way with
  | nil => exact not_leadsToCase_nil _
  | cons name r =>
    rintro ⟨⟨s, hs⟩, -⟩
    cases hs

/-- The first name on a way to a case file is the one of a directory or of the case file
(`IsCaseName`). -/
theorem leadsToCase_cons_iff {l : List (String × Entry)} (h : (l.map Prod.fst).Nodup)
    {name : String} {r : Place} : LeadsToCase (.directory l) (name :: r) ↔
      ∃ e, (name, e) ∈ l ∧ (e.isDirectory = true ∨ IsCaseName name) ∧ LeadsToFile e r := by
  constructor
  · rintro ⟨⟨text, htext⟩, last, hlast, hcase⟩
    obtain ⟨e, he, htext⟩ := Option.bind_eq_some_iff.1 htext
    refine ⟨e, (Files.lookup_eq_some_iff h).1 he, ?_⟩
    -- a way of one name ends here, at a file, and the name has to be the one of a case
    cases r with
    | nil =>
      obtain rfl := Option.some.inj htext
      obtain rfl := Option.some.inj hlast
      exact ⟨.inr hcase, .inl ⟨rfl, rfl⟩⟩
    | cons next r =>
      cases e with
      | file s => cases htext
      | directory inner =>
        have hlast' : (next :: r).getLast? = some last := List.getLast?_cons_cons.symm.trans hlast
        exact ⟨.inl rfl, .inr ⟨⟨text, htext⟩, last, hlast', hcase⟩⟩
  · rintro ⟨e, he, hname, hr⟩
    have hlookup : Files.lookup name l = some e := (Files.lookup_eq_some_iff h).2 he
    rcases hr with ⟨rfl, hfile⟩ | ⟨⟨text, htext⟩, last, hlast, hcase⟩
    · cases e with
      | directory inner => cases hfile
      | file text =>
        refine ⟨⟨text, ?_⟩, name, rfl, hname.resolve_left nofun⟩
        rw [entryAt?, hlookup]
        rfl
    · refine ⟨⟨text, ?_⟩, last, ?_, hcase⟩
      · rw [entryAt?, hlookup]
        exact htext
      · cases r with
        | nil => cases hlast
        | cons next r => exact List.getLast?_cons_cons.trans hlast

theorem filesAmong_eq (way : Place) (l : List (String × Entry)) :
    filesAmong way l = l.flatMap fun e =>
      if e.2.isDirectory || isCaseFile e.1 then filesBelow (way ++ [e.1]) e.2 else [] := by
  induction l with
  | nil => rw [filesAmong, List.flatMap_nil]
  | cons e l ih => rw [filesAmong, ih, List.flatMap_cons]

theorem mem_filesAmong_iff {front way : Place} {l : List (String × Entry)} :
    way ∈ filesAmong front l ↔ ∃ e ∈ l, (e.2.isDirectory = true ∨ IsCaseName e.1) ∧
      way ∈ filesBelow (front ++ [e.1]) e.2 := by
  rw [filesAmong_eq, List.mem_flatMap]
  refine exists_congr fun e => and_congr_right fun _ => ?_
  rw [← isCaseFile_eq_true_iff, ← Bool.or_eq_true]
  split
  next h => simp [h]
  next h => simp [h]

/-- **Every case file is found, and nothing else**: `filesBelow` lists the ways for which
`LeadsToFile` holds. -/
theorem mem_filesBelow_iff {e : Entry} (h : Sound e) {front way : Place} :
    way ∈ filesBelow front e ↔ ∃ r, way = front ++ r ∧ LeadsToFile e r := by
  -- on the way down the names come to stand in `front`
  induction h generalizing front way with
  | file text =>
    rw [filesBelow, List.mem_singleton]
    constructor
    · rintro rfl
      exact ⟨[], (List.append_nil _).symm, .inl ⟨rfl, rfl⟩⟩
    · rintro ⟨r, rfl, ⟨rfl, -⟩ | hcase⟩
      · rw [List.append_nil]
      · exact absurd hcase (not_leadsToCase_file text r)
  | @directory l distinct named _ ih =>
    rw [filesBelow, mem_filesAmong_iff]
    constructor
    · rintro ⟨⟨name, e⟩, he, hname, hway⟩
      obtain ⟨r, rfl, hr⟩ := (ih _ he).1 hway
      refine ⟨name :: r, by simp, .inr ?_⟩
      exact (leadsToCase_cons_iff distinct).2 ⟨e, he, hname, hr⟩
    · rintro ⟨r, rfl, ⟨-, hfile⟩ | hcase⟩
      · cases hfile
      · cases r with
        | nil => exact absurd hcase (not_leadsToCase_nil _)
        | cons name r =>
          obtain ⟨e, he, hname, hr⟩ := (leadsToCase_cons_iff distinct).1 hcase
          exact ⟨(name, e), he, hname, (ih _ he).2 ⟨r, by simp, hr⟩⟩

/-- **No case file is found twice** in entries that are `Sound`. -/
theorem nodup_filesBelow {e : Entry} (h : Sound e) (front : Place) :
    (filesBelow front e).Nodup := by
  induction h generalizing front with
  | file text =>
    rw [filesBelow]
    exact List.nodup_singleton front
  | @directory l distinct named hbelow ih =>
    rw [filesBelow, filesAmong_eq, List.nodup_flatMap]
    refine ⟨fun e he => ?_, ?_⟩
    · split
      next => exact ih e he _
      next => exact List.nodup_nil
    · -- the ways below two entries differ in the names of the entries
      have hpairs : l.Pairwise fun e f => e.1 ≠ f.1 := List.pairwise_map.1 distinct
      refine hpairs.imp_of_mem fun {e f} he hf hne way hway hway' => ?_
      have hfound : ∀ {g : String × Entry}, g ∈ l →
          way ∈ (if g.2.isDirectory || isCaseFile g.1 then
            filesBelow (front ++ [g.1]) g.2 else []) →
          ∃ r, way = front ++ g.1 :: r := by
        intro g hg hmem
        split at hmem
        next =>
          obtain ⟨r, rfl, -⟩ := (mem_filesBelow_iff (hbelow g hg)).1 hmem
          exact ⟨r, by simp⟩
        next => cases hmem
      obtain ⟨r, rfl⟩ := hfound he hway
      obtain ⟨r', heq⟩ := hfound hf hway'
      exact hne (List.cons.inj (List.append_cancel_left heq)).1

/-! ## Their order -/

theorem notAfter_iff {way way' : Place} :
    notAfter way way' = true ↔ way = way' ∨ List.Lex (· < ·) way way' := by
  induction way generalizing way' with
  | nil => cases way' <;> simp [notAfter]
  | cons a r ih =>
    cases way' with
    | nil => simp [notAfter]
    | cons b s =>
      rw [notAfter, List.cons_lex_cons_iff]
      split
      next heq =>
        subst heq
        rw [ih, List.cons_inj_right, or_iff_right (String.lt_irrefl a), and_iff_right rfl]
      next hne => simp [hne]

theorem notAfter_trans (way way' way'' : Place) (h : notAfter way way' = true)
    (h' : notAfter way' way'' = true) : notAfter way way'' = true := by
  rw [notAfter_iff] at h h' ⊢
  rcases h with rfl | h
  · exact h'
  · rcases h' with rfl | h'
    · exact .inr h
    · exact .inr (List.lex_trans String.lt_trans h h')

theorem notAfter_total (way way' : Place) :
    (notAfter way way' || notAfter way' way) = true := by
  induction way generalizing way' with
  | nil => rw [notAfter, Bool.true_or]
  | cons a r ih =>
    cases way' with
    | nil => rw [Bool.or_eq_true]; exact .inr rfl
    | cons b s =>
      rw [notAfter, notAfter]
      by_cases hab : a = b
      · simpa [hab] using ih s
      · have hlt : a < b ∨ b < a := by
          by_contra hno
          rw [not_or, String.not_lt, String.not_lt] at hno
          exact hab (String.le_antisymm hno.2 hno.1)
        simpa [hab, Ne.symm hab] using hlt

variable {l : List (String × Entry)}

/-- The case files of a directory are the files with such names (`LeadsToCase`), at any depth. -/
theorem mem_caseFiles_iff (h : Sound (.directory l)) {way : Place} :
    way ∈ caseFiles l ↔ LeadsToCase (.directory l) way := by
  have hfiles : filesBelow [] (.directory l) = filesAmong [] l := by rw [filesBelow]
  rw [caseFiles, (List.mergeSort_perm _ _).mem_iff, ← hfiles, mem_filesBelow_iff h]
  constructor
  · rintro ⟨r, rfl, ⟨-, hfile⟩ | hcase⟩
    · cases hfile
    · exact hcase
  · exact fun hcase => ⟨way, rfl, .inr hcase⟩

/-- They come in strict order: `caseFiles` sorts them, and none comes twice (`nodup_filesBelow`). -/
theorem pairwise_caseFiles (h : Sound (.directory l)) :
    (caseFiles l).Pairwise (List.Lex (· < ·)) := by
  have hnodup : (caseFiles l).Nodup := by
    have hfiles : filesBelow [] (.directory l) = filesAmong [] l := by rw [filesBelow]
    rw [caseFiles, (List.mergeSort_perm _ _).nodup_iff, ← hfiles]
    exact nodup_filesBelow h []
  have hsorted : (caseFiles l).Pairwise fun way way' => notAfter way way' = true :=
    List.pairwise_mergeSort notAfter_trans notAfter_total _
  -- what is sorted and has nothing twice is strictly sorted
  exact (hsorted.and hnodup).imp fun h => (notAfter_iff.1 h.1).resolve_left h.2

end Loading

end RestCase
