/-
# RestCase.Proofs.Case.Gathering — the cases of a directory

What is loaded from a directory are the cases of its case files, in the order of their paths; a file
that cannot be loaded is left out (`exists_lists`).  Whether a file can be loaded, and as which
case, depends on its text and on the contents that its payloads name (`ofFile_eq_ok_iff`), and so on
what stands at some places of the tree: two trees that `Agree` on these load it alike.

Neither the order in which directories list their entries matters (`ofDirectory_of_relists`), nor a
file that is not looked at (`ofDirectory_of_lacks`).  `ofDirectory_lists` says all of this, and
which cases a list of paths gives.
-/
import RestCase.Proofs.Case.Discovery
import RestCase.Proofs.Case.Inlining

namespace RestCase

open Files (Entry Place Sound IsName Tree below)
open Loading (Supplies FirstFile)

variable {t t' : Tree} {path : String}

/-! ## What the loading of a file depends on -/

/-- A step of the case has a payload that names the file (`payloadReference?`). -/
def TestCase.Names (c : TestCase) (reference : String) : Prop :=
  ∃ phase, ∃ s ∈ c.steps phase, ∃ payload, s.request.payload = some payload ∧
    NamesFile payload reference

theorem TestCase.names_iff {c : TestCase} {reference : String} :
    c.Names reference ↔ reference ∈ c.payloadReferences := by
  simp only [payloadReferences, List.mem_filterMap, Option.bind_eq_some_iff,
    payloadReference?_eq_some_iff, List.mem_append, Names]
  constructor
  · rintro ⟨phase, s, hs, hnames⟩
    refine ⟨s, ?_, hnames⟩
    cases phase with
    | preconditions => exact .inl (.inl (.inl hs))
    | setup => exact .inl (.inl (.inr hs))
    | execution => exact .inl (.inr hs)
    | cleanup => exact .inr hs
  · rintro ⟨s, ((hs | hs) | hs) | hs, hnames⟩
    · exact ⟨.preconditions, s, hs, hnames⟩
    · exact ⟨.setup, s, hs, hnames⟩
    · exact ⟨.execution, s, hs, hnames⟩
    · exact ⟨.cleanup, s, hs, hnames⟩

theorem Step.Inlines.mono {directory : Option String} {s u : Step} (h : Inlines t directory s u)
    (hsupplies : ∀ payload reference, s.request.payload = some payload →
      NamesFile payload reference → ∀ content, Supplies t directory reference content →
        Supplies t' directory reference content) : Inlines t' directory s u := by
  cases h with
  | kept hnames => exact .kept hnames
  | supplied hpayload hnames hcontent =>
    exact .supplied hpayload hnames (hsupplies _ _ hpayload hnames _ hcontent)

theorem TestCase.Inlines.mono {directory : Option String} {c d : TestCase}
    (h : Inlines t directory c d)
    (hsupplies : ∀ reference, c.Names reference → ∀ content,
      Supplies t directory reference content → Supplies t' directory reference content) :
    Inlines t' directory c d := by
  refine ⟨h.name_eq, h.description_eq, fun phase => ?_⟩
  have hsteps : List.Forall₂ (fun s u => s ∈ c.steps phase ∧ Step.Inlines t directory s u)
      (c.steps phase) (d.steps phase) :=
    (List.forall₂_and_left _ _).2 ⟨fun _ hs => hs, h.steps phase⟩
  exact hsteps.imp fun s u ⟨hs, hu⟩ => hu.mono fun payload reference hpayload hnames =>
    hsupplies reference ⟨phase, s, hs, payload, hpayload, hnames⟩

/-- The case of a text is the described one with the payloads put in, if it lacks nothing. -/
theorem TestCase.ofYaml_eq_ok_iff {directory : Option String} {text : String} {d : TestCase} :
    ofYaml (Loading.payloadFiles t directory) text = .ok d ↔
      ∃ c, described text = .ok c ∧ c.Inlines t directory d ∧ d.invalid? = none := by
  unfold ofYaml
  cases hdescribed : described text with
  | error fault => simp
  | ok c =>
    simp only [Except.ok.injEq, exists_eq_left', ← inlined_eq_ok_iff]
    cases hinlined : c.inlined (Loading.payloadFiles t directory) with
    | error fault => simp
    | ok e =>
      simp only [checked_eq_ok_iff, Except.ok.injEq]
      constructor
      · rintro ⟨hvalid, rfl⟩
        exact ⟨rfl, hvalid⟩
      · rintro ⟨rfl, hvalid⟩
        exact ⟨hvalid, rfl⟩

namespace Loading

/-- A file is loaded as the case that its text describes, with the payloads put in. -/
theorem ofFile_eq_ok_iff {c : LoadedCase} : ofFile t path = .ok c ↔
    c.source = path ∧ ∃ text d, t.readText path = .ok text ∧ TestCase.described text = .ok d ∧
      d.Inlines t (Files.parent? path) c.case ∧ c.case.invalid? = none := by
  unfold ofFile
  cases hread : t.readText path with
  | error fault => simp
  | ok text =>
    simp only [Except.ok.injEq, exists_and_left, exists_eq_left']
    rw [← TestCase.ofYaml_eq_ok_iff]
    cases hcase : TestCase.ofYaml (payloadFiles t (Files.parent? path)) text with
    | error fault => simp
    | ok d =>
      cases c
      simp [eq_comm]

theorem toOption_ofFile_eq_some_iff {c : LoadedCase} :
    (ofFile t path).toOption = some c ↔ ofFile t path = .ok c := by
  cases ofFile t path <;> simp [Except.toOption]

theorem source_of_ofFile {c : LoadedCase} (h : (ofFile t path).toOption = some c) :
    c.source = path := (ofFile_eq_ok_iff.1 (toOption_ofFile_eq_some_iff.1 h)).1

/-- A case is among the ones of some files if `ofFile` loads it from one of them. -/
theorem mem_ofFiles_iff {paths : List String} {c : LoadedCase} :
    c ∈ ofFiles t paths ↔ c.source ∈ paths ∧ ofFile t c.source = .ok c := by
  rw [ofFiles, List.mem_filterMap]
  constructor
  · rintro ⟨path, hpath, hc⟩
    obtain rfl := source_of_ofFile hc
    exact ⟨hpath, toOption_ofFile_eq_some_iff.1 hc⟩
  · rintro ⟨hpath, hc⟩
    exact ⟨c.source, hpath, toOption_ofFile_eq_some_iff.2 hc⟩

/-- Two trees have the same text at a path, and the same contents for the files that its payloads
name (`TestCase.Names`). -/
structure Agree (t t' : Tree) (path : String) : Prop where
  text : ∀ text, t.readText path = .ok text ↔ t'.readText path = .ok text
  payloads : ∀ text c, t.readText path = .ok text → TestCase.described text = .ok c →
    ∀ reference, c.Names reference → ∀ content,
      Supplies t (Files.parent? path) reference content ↔
        Supplies t' (Files.parent? path) reference content

theorem Agree.symm (h : Agree t t' path) : Agree t' t path :=
  ⟨fun text => (h.text text).symm, fun text c htext hc reference hnames content =>
    (h.payloads text c ((h.text text).2 htext) hc reference hnames content).symm⟩

theorem Agree.ofFile_eq_ok {c : LoadedCase} (h : Agree t t' path) (hc : ofFile t path = .ok c) :
    ofFile t' path = .ok c := by
  obtain ⟨hsource, text, d, htext, hd, hinlines, hvalid⟩ := ofFile_eq_ok_iff.1 hc
  refine ofFile_eq_ok_iff.2 ⟨hsource, text, d, (h.text text).1 htext, hd, ?_, hvalid⟩
  exact hinlines.mono fun reference hnames content =>
    (h.payloads text d htext hd reference hnames content).1

/-- **The loading of a file depends on its text and on the contents that its payloads name**,
which is what `Agree` compares. -/
theorem Agree.ofFile_iff {c : LoadedCase} (h : Agree t t' path) :
    ofFile t path = .ok c ↔ ofFile t' path = .ok c := ⟨h.ofFile_eq_ok, h.symm.ofFile_eq_ok⟩

theorem supplies_iff_of_firstFile {directory : Option String} {reference content : String}
    (hfirst : ∀ found, FirstFile t directory reference found ↔
      FirstFile t' directory reference found)
    (hread : ∀ found, FirstFile t directory reference found →
      (t.readText found = .ok content ↔ t'.readText found = .ok content)) :
    Supplies t directory reference content ↔ Supplies t' directory reference content := by
  constructor
  · rintro ⟨found, hfound, htext, hbracketed⟩
    exact ⟨found, (hfirst found).1 hfound, (hread found hfound).1 htext, hbracketed⟩
  · rintro ⟨found, hfound, htext, hbracketed⟩
    have hfound' := (hfirst found).2 hfound
    exact ⟨found, hfound', (hread found hfound').2 htext, hbracketed⟩

/-- Whatever the order in which directories list their entries (`Files.Tree.Relists`), files are
loaded the same. -/
theorem agree_of_relists (h : t.Relists t') (ht : Sound t.rootEntry) : Agree t t' path := by
  have hfile : t.isFile = t'.isFile := by
    funext p
    rw [Bool.eq_iff_iff, Tree.isFile_iff, Tree.isFile_iff, h.locate_eq ht, h.face_eq ht]
  have hread : ∀ p s, t.readText p = .ok s ↔ t'.readText p = .ok s := fun p s => by
    rw [Tree.readText_eq_ok_iff, Tree.readText_eq_ok_iff, h.locate_eq ht, h.face_eq ht]
  refine ⟨hread path, fun text c _ _ reference _ content => ?_⟩
  refine supplies_iff_of_firstFile (fun found => ?_) fun found _ => hread found content
  rw [← find?_payloadPaths_eq_some_iff, ← find?_payloadPaths_eq_some_iff, hfile]

/-- What stands at the place is the first file that a payload in the file at the path leads to
(`FirstFile`). -/
def ServesAsPayload (t : Tree) (path : String) (place : Place) : Prop :=
  ∃ text c reference found, t.readText path = .ok text ∧ TestCase.described text = .ok c ∧
    c.Names reference ∧ FirstFile t (Files.parent? path) reference found ∧
    t.locate found = .ok place

theorem firstFile_iff_of_lacks {place : Place} {text : Option String} (h : t'.Lacks place text t)
    (ht : Sound t.rootEntry) {directory : Option String} {reference : String}
    (hnot : ∀ found, FirstFile t directory reference found → t.locate found ≠ .ok place)
    (found : String) :
    FirstFile t directory reference found ↔ FirstFile t' directory reference found := by
  -- what is no file does not become one when a file is taken away
  have hless : ∀ p, t.isFile p = false → t'.isFile p = false := fun p hp =>
    Bool.eq_false_iff.2 fun hp' => Bool.eq_false_iff.1 hp ((h.isFile_iff ht).1 hp').1
  constructor
  · intro hfound
    have hfile : t.isFile found = true → t'.isFile found = true := fun hfile =>
      (h.isFile_iff ht).2 ⟨hfile, hnot found hfound⟩
    cases hfound with
    | beside hd hbeside => exact .beside hd (hfile hbeside)
    | here hnone hhere => exact .here (fun d hd => hless _ (hnone d hd)) (hfile hhere)
  · rintro (⟨hd, hbeside⟩ | ⟨hnone, hhere⟩)
    · exact .beside hd ((h.isFile_iff ht).1 hbeside).1
    · refine .here (fun d hd => Bool.eq_false_iff.2 fun hbeside => ?_) ((h.isFile_iff ht).1 hhere).1
      have hplace := hnot _ (.beside hd hbeside)
      exact Bool.eq_false_iff.1 (hnone d hd) ((h.isFile_iff ht).2 ⟨hbeside, hplace⟩)

/-- Without a file that is not looked at (`Files.Tree.Lacks`), a file is loaded the same. -/
theorem agree_of_lacks {place : Place} {text : Option String} (h : t'.Lacks place text t)
    (ht : Sound t.rootEntry) (hpath : t.locate path ≠ .ok place)
    (hpayload : ¬ ServesAsPayload t path place) : Agree t t' path := by
  refine ⟨fun s => ?_, fun s c hs hc reference hnames content => ?_⟩
  · rw [h.readText_iff ht, and_iff_left hpath]
  · have hnot : ∀ found, FirstFile t (Files.parent? path) reference found →
        t.locate found ≠ .ok place := fun found hfound hplace =>
      hpayload ⟨s, c, reference, found, hs, hc, hnames, hfound, hplace⟩
    refine supplies_iff_of_firstFile (firstFile_iff_of_lacks h ht hnot) fun found hfound => ?_
    rw [h.readText_iff ht, and_iff_left (hnot found hfound)]

/-! ## The cases of a directory -/

/-- In the directory that the path leads to, the way leads to a case file. -/
def CaseFileBelow (t : Tree) (path : String) (way : Place) : Prop :=
  ∃ l, t.readDirectory path = .ok l ∧ LeadsToCase (.directory l) way

/-- The cases are those of the case files below a directory (`CaseFileBelow`) that load on their
own (`ofFile`), each once and in the order of the paths. -/
structure Lists (t : Tree) (path : String) (cases : List LoadedCase) : Prop where
  ordered : cases.Pairwise fun c d => Files.Before c.source d.source
  mem_iff : ∀ c, c ∈ cases ↔ ∃ way, CaseFileBelow t path way ∧ c.source = below path way ∧
    ofFile t c.source = .ok c

/-- In the place stands no case file below the directory that loads, and nothing that a payload in
another case file below the directory leads to. -/
structure Dispensable (t : Tree) (path : String) (place : Place) : Prop where
  fails : ∀ way, CaseFileBelow t path way → t.locate (below path way) = .ok place →
    ∀ c, ofFile t (below path way) ≠ .ok c
  no_payload : ∀ way, CaseFileBelow t path way → t.locate (below path way) ≠ .ok place →
    ¬ ServesAsPayload t (below path way) place

/-- What a directory stands for is fixed by which cases are in it, as `Lists` puts them in order. -/
theorem eq_of_ordered {cases cases' : List LoadedCase}
    (h : cases.Pairwise fun c d => Files.Before c.source d.source)
    (h' : cases'.Pairwise fun c d => Files.Before c.source d.source)
    (hmem : ∀ c, c ∈ cases ↔ c ∈ cases') : cases = cases' := by
  have hnodup : ∀ {l : List LoadedCase},
      (l.Pairwise fun c d => Files.Before c.source d.source) → l.Nodup := fun hl =>
    hl.imp fun {c d} hbefore (heq : c = d) => Files.before_irrefl d.source (heq ▸ hbefore)
  have hperm : cases.Perm cases' := (List.perm_ext_iff_of_nodup (hnodup h) (hnodup h')).2 hmem
  exact hperm.eq_of_pairwise (fun c d _ _ hcd hdc => absurd hdc (Files.before_asymm hcd)) h h'

/-- The names on a way to a case file are names. -/
theorem LeadsToCase.names {e : Entry} {way : Place} (h : LeadsToCase e way) (he : Sound e) :
    ∀ name ∈ way, IsName name := by
  obtain ⟨text, htext⟩ := h.file
  exact he.names htext

/-- **The cases of a directory** are the ones of its case files, in order: `ofDirectory` gives
what it `Lists`. -/
theorem exists_lists (ht : Sound t.rootEntry) (hpath : t.isDirectory path = true) :
    ∃ cases, ofDirectory t path = .ok cases ∧ Lists t path cases := by
  obtain ⟨place, hplace, hface⟩ := Tree.isDirectory_iff.1 hpath
  obtain ⟨l, hl⟩ := Files.face_eq_directory_iff.1 hface
  have hsound : Sound (.directory l) := ht.entryAt? hl
  have hread : t.readDirectory path = .ok l := Tree.readDirectory_eq_ok_iff.2 ⟨place, hplace, hl⟩
  have hnames : ∀ way ∈ caseFiles l, ∀ name ∈ way, IsName name := fun way hway =>
    ((mem_caseFiles_iff hsound).1 hway).names hsound
  -- read as they are found, in the order of the paths, and each of them a case of the directory
  refine ⟨ofFiles t ((caseFiles l).map (below path)), ?_, ?_, fun c => ?_⟩
  · unfold ofDirectory
    rw [hread]
    rfl
  · have hpaths : ((caseFiles l).map (below path)).Pairwise Files.Before :=
      List.pairwise_map.2 ((pairwise_caseFiles hsound).imp_of_mem fun hway hway' =>
        Files.before_below path (hnames _ hway) (hnames _ hway'))
    refine hpaths.filterMap _ fun p q hbefore c hc d hd => ?_
    rw [source_of_ofFile hc, source_of_ofFile hd]
    exact hbefore
  · rw [mem_ofFiles_iff, List.mem_map]
    constructor
    · rintro ⟨⟨way, hway, hsource⟩, hc⟩
      exact ⟨way, ⟨l, hread, (mem_caseFiles_iff hsound).1 hway⟩, hsource.symm, hc⟩
    · rintro ⟨way, ⟨m, hm, hway⟩, hsource, hc⟩
      obtain rfl := Except.ok.inj (hread.symm.trans hm)
      exact ⟨⟨way, (mem_caseFiles_iff hsound).2 hway, hsource.symm⟩, hc⟩

/-- Directories with the same loadable case files stand for the same cases. -/
theorem ofDirectory_eq_of_same (ht : Sound t.rootEntry) (ht' : Sound t'.rootEntry)
    (hpath : t.isDirectory path = true) (hpath' : t'.isDirectory path = true)
    (hsame : ∀ way c, CaseFileBelow t path way ∧ ofFile t (below path way) = .ok c ↔
      CaseFileBelow t' path way ∧ ofFile t' (below path way) = .ok c) :
    ofDirectory t' path = ofDirectory t path := by
  obtain ⟨cases, hcases, hlists⟩ := exists_lists ht hpath
  obtain ⟨cases', hcases', hlists'⟩ := exists_lists ht' hpath'
  have hmem : ∀ c, c ∈ cases ↔ c ∈ cases' := fun c => by
    rw [hlists.mem_iff, hlists'.mem_iff]
    refine exists_congr fun way => ?_
    rw [and_left_comm, and_left_comm (a := CaseFileBelow t' path way)]
    exact and_congr_right fun hsource => hsource ▸ hsame way c
  rw [hcases, hcases', eq_of_ordered hlists.ordered hlists'.ordered hmem]

theorem caseFileBelow_iff {place way : Place} (h : t.locate path = .ok place) :
    CaseFileBelow t path way ↔
      (∃ text, Files.face t.rootEntry (place ++ way) = some (.file text)) ∧
        ∃ name, way.getLast? = some name ∧ IsCaseName name := by
  simp only [CaseFileBelow, Tree.readDirectory_eq_ok_iff, Files.face_eq_file_iff,
    Files.entryAt?_append, h, Except.ok.injEq, exists_eq_left']
  constructor
  · rintro ⟨l, hl, ⟨text, htext⟩, hname⟩
    exact ⟨⟨text, by rw [hl, Option.bind_some, htext]⟩, hname⟩
  · rintro ⟨⟨text, htext⟩, name, hlast, hcase⟩
    obtain ⟨e, he, htext⟩ := Option.bind_eq_some_iff.1 htext
    cases e with
    | directory l => exact ⟨l, he, ⟨text, htext⟩, name, hlast, hcase⟩
    | file s => exact absurd ⟨⟨text, htext⟩, name, hlast, hcase⟩ (not_leadsToCase_file s way)

/-- **The order in which directories list their entries does not matter** to `ofDirectory`. -/
theorem ofDirectory_of_relists (ht : Sound t.rootEntry) (hpath : t.isDirectory path = true)
    (h : t.Relists t') : ofDirectory t' path = ofDirectory t path := by
  obtain ⟨base, hbase, hface⟩ := Tree.isDirectory_iff.1 hpath
  have hbase' : t'.locate path = .ok base := by rw [h.locate_eq ht, hbase]
  have hpath' : t'.isDirectory path = true :=
    Tree.isDirectory_iff.2 ⟨base, hbase', by rw [h.face_eq ht, hface]⟩
  refine ofDirectory_eq_of_same ht (h.root.sound ht) hpath hpath' fun way c => ?_
  rw [caseFileBelow_iff hbase, caseFileBelow_iff hbase', h.face_eq ht,
    (agree_of_relists h ht).ofFile_iff]

/-- What a file is loaded from stands where its path leads to. -/
theorem locate_of_ofFile (ht : Sound t.rootEntry) {base way : Place} (hne : path ≠ "")
    (hbase : t.locate path = .ok base) (hway : CaseFileBelow t path way) {c : LoadedCase}
    (hc : ofFile t (below path way) = .ok c) : t.locate (below path way) = .ok (base ++ way) := by
  obtain ⟨-, text, -, htext, -⟩ := ofFile_eq_ok_iff.1 hc
  obtain ⟨x, hx, -⟩ := Tree.readText_eq_ok_iff.1 htext
  obtain ⟨l, hl, hcase⟩ := hway
  obtain ⟨y, -, hentry⟩ := Tree.readDirectory_eq_ok_iff.1 hl
  have hnames := hcase.names (ht.entryAt? hentry)
  rw [hx, Tree.locate_below hne hbase hnames hx]

/-- **A file that is not needed makes no difference**: one in a place that is `Dispensable`. -/
theorem ofDirectory_of_lacks {place : Place} {text : Option String} (ht : Sound t.rootEntry)
    (hpath : t.isDirectory path = true) (h : t'.Lacks place text t)
    (hplace : Dispensable t path place) : ofDirectory t' path = ofDirectory t path := by
  obtain ⟨hmissing, hfile, hsame⟩ := h.root.face_eq ht
  obtain ⟨base, hbase, hface⟩ := Tree.isDirectory_iff.1 hpath
  -- the directory itself stays, as what is missing is a file
  have hne : base ≠ place := by
    rintro rfl
    cases hface.symm.trans hfile
  have hbase' : t'.locate path = .ok base := (h.locate_iff ht hne).2 hbase
  have hpath' : t'.isDirectory path = true :=
    Tree.isDirectory_iff.2 ⟨base, hbase', (hsame base hne).trans hface⟩
  have hways : ∀ way, CaseFileBelow t' path way ↔
      base ++ way ≠ place ∧ CaseFileBelow t path way := fun way => by
    rw [caseFileBelow_iff hbase, caseFileBelow_iff hbase']
    by_cases heq : base ++ way = place
    · have hnone : Files.face t'.rootEntry (base ++ way) = none := heq ▸ hmissing
      simp [heq, heq ▸ hnone]
    · have hhere : Files.face t'.rootEntry (base ++ way) = Files.face t.rootEntry (base ++ way) :=
        hsame _ heq
      simp [heq, hhere]
  refine ofDirectory_eq_of_same ht (h.root.sound ht) hpath hpath' fun way c => ?_
  rw [hways]
  by_cases hlead : t.locate (below path way) = .ok place
  · -- the file fails where it is, and nothing can be read where it is not
    refine iff_of_false (fun ⟨hway, hc⟩ => hplace.fails way hway hlead c hc) fun ⟨_, hc⟩ => ?_
    obtain ⟨-, s, -, hs, -⟩ := ofFile_eq_ok_iff.1 hc
    exact ((h.readText_iff ht).1 hs).2 hlead
  · constructor
    · rintro ⟨hway, hc⟩
      -- the file itself is still there, and everything it needs is
      have hlocate := locate_of_ofFile ht (Tree.locate_eq_ok_iff.1 hbase).1 hbase hway hc
      have hagree := agree_of_lacks h ht hlead (hplace.no_payload way hway hlead)
      exact ⟨⟨fun heq => hlead (heq ▸ hlocate), hway⟩, hagree.ofFile_iff.1 hc⟩
    · rintro ⟨⟨-, hway⟩, hc⟩
      have hagree := agree_of_lacks h ht hlead (hplace.no_payload way hway hlead)
      exact ⟨hway, hagree.ofFile_iff.2 hc⟩

/-! ## The cases of a list of paths -/

/-- The part of a path in what is loaded from a list of paths: the cases of a directory, the case of
a file if it can be loaded, and nothing if the path leads nowhere. -/
inductive Contributes (t : Tree) : String → List LoadedCase → Prop
  | directory {path : String} {cases : List LoadedCase} (hpath : t.isDirectory path = true)
      (h : ofDirectory t path = .ok cases) : Contributes t path cases
  | file {path : String} {c : LoadedCase} (hpath : t.isFile path = true)
      (h : ofFile t path = .ok c) : Contributes t path [c]
  | broken {path : String} {fault : LoadFault} (hpath : t.isFile path = true)
      (h : ofFile t path = .error fault) : Contributes t path []
  | missing {path : String} (hpath : t.hasEntry path = false) : Contributes t path []

/-- **Every path has its part**: `ofPaths` puts together what each one `Contributes`. -/
theorem exists_contributes (ht : Sound t.rootEntry) (path : String) :
    ∃ cases, Contributes t path cases ∧ ofPaths.one t path = .ok cases := by
  unfold ofPaths.one
  by_cases hdirectory : t.isDirectory path = true
  · obtain ⟨cases, hcases, -⟩ := exists_lists ht hdirectory
    exact ⟨cases, .directory hdirectory hcases, by rw [if_pos hdirectory, hcases]⟩
  · rw [if_neg hdirectory]
    by_cases hfile : t.isFile path = true
    · rw [if_pos hfile]
      cases hload : ofFile t path with
      | error fault => exact ⟨[], .broken hfile hload, by simp [ofFiles, hload, Except.toOption]⟩
      | ok c => exact ⟨[c], .file hfile hload, by simp [ofFiles, hload, Except.toOption]⟩
    · rw [if_neg hfile]
      -- neither a directory nor a file: nothing is there, as there are no other kinds of entries
      refine ⟨[], .missing ?_, rfl⟩
      unfold Tree.isDirectory at hdirectory
      unfold Tree.isFile at hfile
      unfold Tree.hasEntry
      cases hfind : t.find path with
      | error fault => rfl
      | ok e => cases e <;> simp [hfind] at hdirectory hfile

/-- **The cases of a directory are those of its loadable case files** (`Lists`).  Each comes once,
with its path, in the order of the paths; neither the order in which directories list their
entries matters (`Files.Tree.Relists`) nor a file that cannot be loaded and that no other one
needs (`Dispensable`).  What `ofPaths` loads from several paths is the part of each of them
(`Contributes`), in order. -/
theorem ofDirectory_lists (t : Tree) (ht : Sound t.rootEntry) :
    (∀ path, t.isDirectory path = true → ∃ cases, ofDirectory t path = .ok cases ∧
      Lists t path cases ∧
      (∀ t', t.Relists t' → ofDirectory t' path = .ok cases) ∧
      ∀ t' place text, Tree.Lacks t' place text t → Dispensable t path place →
        ofDirectory t' path = .ok cases) ∧
    ∀ paths, ∃ parts, List.Forall₂ (Contributes t) paths parts ∧
      ofPaths t paths = .ok parts.flatten := by
  refine ⟨fun path hpath => ?_, fun paths => ?_⟩
  · obtain ⟨cases, hcases, hlists⟩ := exists_lists ht hpath
    refine ⟨cases, hcases, hlists, fun t' h => ?_, fun t' place text h hplace => ?_⟩
    · rw [ofDirectory_of_relists ht hpath h, hcases]
    · rw [ofDirectory_of_lacks ht hpath h hplace, hcases]
  · obtain ⟨parts, hparts⟩ := Decoding.exists_forall₂_iff.2 fun path (_ : path ∈ paths) =>
      exists_contributes ht path
    have hone : paths.mapM (ofPaths.one t) = .ok parts :=
      Decoding.mapM_eq_ok_iff.2 (hparts.imp fun _ _ h => h.2)
    refine ⟨parts, hparts.imp fun _ _ h => h.1, ?_⟩
    rw [ofPaths, hone]
    rfl

namespace BrokenNeighbour

/-- The text of a case. -/
def text : String := "name: minimal\nexecution:\n  - name: s\n    request:\n      endpoint: /t\n"

/-- A case file, and another one in a directory. -/
def others : List (String × Entry) :=
  [("one.yml", .file (some text)), ("more", .directory [("two.yaml", .file (some text))])]

/-- The same with a case file that holds no text. -/
def entries : List (String × Entry) := ("broken.yaml", .file none) :: others

/-- The tree with these entries in one directory. -/
def tree : Files.Tree := ⟨[("cases", .directory entries)], []⟩

/-- The tree with the entries in another order. -/
def reordered : Files.Tree :=
  ⟨[("cases", .directory (others ++ [("broken.yaml", .file none)]))], []⟩

/-- The tree without the file that holds no text. -/
def without : Files.Tree := ⟨[("cases", .directory others)], []⟩

theorem sound_entries : Sound (.directory entries) := by
  have hmore : Sound (.directory [("two.yaml", .file (some text))]) :=
    .directory (by decide) (by decide) (by simp [Sound.file])
  exact .directory (by decide) (by decide) (by simp [entries, others, Sound.file, hmore])

theorem sound : Sound tree.rootEntry :=
  .directory (by decide) (by decide) (by simp [tree, sound_entries])

theorem relists : tree.Relists reordered :=
  ⟨rfl, .within [] [] "cases" (.order (List.perm_append_singleton _ others).symm)⟩

theorem lacks : without.Lacks ["cases", "broken.yaml"] none tree :=
  ⟨rfl, .within [] [] "cases" (.here [] others "broken.yaml")⟩

theorem dispensable : Dispensable tree "cases" ["cases", "broken.yaml"] := by
  constructor
  · intro way _ hlead c hc
    obtain ⟨-, s, -, hs, -⟩ := ofFile_eq_ok_iff.1 hc
    obtain ⟨x, hx, hface⟩ := Tree.readText_eq_ok_iff.1 hs
    obtain rfl := Except.ok.inj (hlead.symm.trans hx)
    cases hface
  · rintro way ⟨l, hl, hway⟩ - ⟨s, c, reference, found, hs, hc, hnames, -⟩
    obtain rfl := Except.ok.inj hl
    have hways : filesAmong [] entries = [["broken.yaml"], ["one.yml"], ["more", "two.yaml"]] := by
      decide
    rw [← mem_caseFiles_iff sound_entries, caseFiles, (List.mergeSort_perm _ _).mem_iff, hways]
      at hway
    have htext : text = s := by
      simp only [List.mem_cons, List.not_mem_nil, or_false] at hway
      rcases hway with rfl | rfl | rfl
      · cases hs
      · exact Except.ok.inj hs
      · exact Except.ok.inj hs
    have hnone : (TestCase.described text).toOption.map (·.payloadReferences) = some [] := by
      decide +kernel
    rw [htext, hc] at hnone
    have hempty : c.payloadReferences = [] := Option.some.inj hnone
    rw [TestCase.names_iff, hempty] at hnames
    cases hnames

end BrokenNeighbour

open BrokenNeighbour in
/-- The cases of two files are found, with the entries in any order, with or without the file that
holds no text. -/
theorem ofDirectory_lists_brokenNeighbour :
    ∃ cases, ofDirectory tree "cases" = .ok cases ∧ ofDirectory reordered "cases" = .ok cases ∧
      ofDirectory without "cases" = .ok cases ∧
      (∀ way ∈ [["one.yml"], ["more", "two.yaml"]], ∃ c ∈ cases, c.source = below "cases" way) ∧
      ∃ parts, List.Forall₂ (Contributes tree) ["cases", "missing"] parts ∧
        ofPaths tree ["cases", "missing"] = .ok parts.flatten := by
  obtain ⟨hdirectory, hpaths⟩ := ofDirectory_lists tree sound
  obtain ⟨cases, hcases, hlists, hrelists, hlacks⟩ := hdirectory "cases" (by decide)
  refine ⟨cases, hcases, hrelists _ relists, hlacks _ _ _ lacks dispensable, fun way hway => ?_,
    hpaths _⟩
  have hbelow : CaseFileBelow tree "cases" way := by
    refine ⟨entries, rfl, ?_⟩
    rw [List.mem_pair] at hway
    rcases hway with rfl | rfl
    · exact ⟨⟨some text, rfl⟩, "one.yml", rfl, isCaseFile_eq_true_iff.1 (by decide)⟩
    · exact ⟨⟨some text, rfl⟩, "two.yaml", rfl, isCaseFile_eq_true_iff.1 (by decide)⟩
  have hloads : ∀ way ∈ [["one.yml"], ["more", "two.yaml"]],
      (ofFile tree (below "cases" way)).toOption.isSome = true := by decide +kernel
  obtain ⟨c, hc⟩ := Option.isSome_iff_exists.1 (hloads way hway)
  have hsource := source_of_ofFile hc
  have hfile : ofFile tree c.source = .ok c := by
    rw [hsource]
    exact toOption_ofFile_eq_some_iff.1 hc
  exact ⟨c, (hlists.mem_iff c).2 ⟨way, hbelow, hsource, hfile⟩, hsource⟩

end Loading

end RestCase
