/-
# RestCase.Proofs.Case.Inlining — payloads from files

A payload names a file after `file:`.  The file is looked for in two places, and the first place
where there is one decides (`FirstFile`): what stands there is put in for the payload, or else the
case is not loaded at all, even if there is another file in the second place.

The relations of this module say so without the loader: which file a reference leads to, what the
file has to hold, and what the case of a document is like afterwards (`Step.Inlines`,
`TestCase.Inlines`).  Each layer has one equivalence with the function that runs
(`payloadFiles_eq_ok_iff`, `exists_inlines_iff`), and `ofNode_inlines` puts them together for whole
documents.
-/
import RestCase.Case.Loading
import RestCase.Proofs.Case.Spellings
import RestCase.Proofs.Chars.Search

namespace RestCase

variable {files : Files.Tree} {directory : Option String}

/-! ## What a payload names -/

/-- The payload names a file: what stands behind `file:`, blanks apart. -/
def NamesFile (payload reference : String) : Prop :=
  ∃ rest, Text.trim payload = "file:" ++ rest ∧ Text.trim rest = reference

theorem payloadReference?_eq_some_iff {payload reference : String} :
    payloadReference? payload = some reference ↔ NamesFile payload reference := by
  simp only [payloadReference?, NamesFile, Option.map_eq_some_iff, Text.afterPrefix?_eq_some]

theorem payloadReference?_eq_none_iff {payload : String} :
    payloadReference? payload = none ↔ Text.startsWith "file:" (Text.trim payload) = false := by
  rw [Bool.eq_false_iff, Ne, Text.startsWith_iff, payloadReference?, Option.map_eq_none_iff,
    Option.eq_none_iff_forall_ne_some, not_exists]

/-! ## What a file has to hold -/

/-- The text stands in braces or in brackets, blanks at the ends apart: what `checkedPayload` asks
for. -/
def IsBracketed (text : String) : Prop :=
  ∃ body, Chars.trim text.toList = '\x7b' :: body ++ ['\x7d'] ∨
    Chars.trim text.toList = '[' :: body ++ [']']

/-- Of two different marks, neither can be the first and the last character at once. -/
theorem between_iff {opening closing : Char} (h : opening ≠ closing) {text : List Char} :
    between opening closing text = true ↔ ∃ body, text = opening :: body ++ [closing] := by
  simp only [between, Bool.and_eq_true, beq_iff_eq]
  constructor
  · rintro ⟨hhead, hlast⟩
    obtain ⟨front, rfl⟩ := List.getLast?_eq_some_iff.1 hlast
    cases front with
    | nil => exact absurd (Option.some.inj hhead).symm h
    | cons c body =>
      obtain rfl : c = opening := Option.some.inj hhead
      exact ⟨body, rfl⟩
  · rintro ⟨body, rfl⟩
    exact ⟨rfl, List.getLast?_concat⟩

theorem checkedPayload_eq_ok_iff {place text content : String} :
    checkedPayload place text = .ok content ↔ text = content ∧ IsBracketed text := by
  have hbrackets : (between '\x7b' '\x7d' (Chars.trim text.toList) ||
      between '[' ']' (Chars.trim text.toList)) = true ↔ IsBracketed text := by
    rw [Bool.or_eq_true, between_iff (by decide), between_iff (by decide), IsBracketed,
      exists_or]
  simp only [checkedPayload]
  split
  · next hempty =>
    have hnot : ¬ IsBracketed text := by
      rintro ⟨body, hbody | hbody⟩ <;> simp [hbody] at hempty
    simp [hnot]
  · split
    · next hb => simp [hbrackets.1 hb]
    · next hb => simp [mt hbrackets.2 hb]

/-- What a file can be used for names no file itself. -/
theorem IsBracketed.names_nothing {text : String} (h : IsBracketed text) :
    Text.startsWith "file:" (Text.trim text) = false := by
  obtain ⟨body, hbody | hbody⟩ := h <;>
    simp [Text.startsWith, Text.trim, hbody, List.isPrefixOf]

/-! ## Where the file is -/

namespace Loading

/-- The first file that a reference leads to among `payloadPaths`: next to the case, or else where
relative paths begin, if there is none next to the case. -/
inductive FirstFile (files : Files.Tree) (directory : Option String) (reference : String) :
    String → Prop
  | beside {d : String} (hd : directory = some d)
      (hfile : files.isFile (Files.join d reference) = true) :
      FirstFile files directory reference (Files.join d reference)
  | here (hnone : ∀ d, directory = some d → files.isFile (Files.join d reference) = false)
      (hfile : files.isFile reference = true) : FirstFile files directory reference reference

theorem find?_payloadPaths_eq_some_iff {reference path : String} :
    (payloadPaths directory reference).find? files.isFile = some path ↔
      FirstFile files directory reference path := by
  constructor
  · intro h
    cases directory with
    | none =>
      obtain ⟨hfile, rfl⟩ : files.isFile reference = true ∧ reference = path := by
        simpa [payloadPaths] using h
      exact .here nofun hfile
    | some d =>
      -- the file beside the case hides the one at the path itself
      by_cases hbeside : files.isFile (Files.join d reference) = true
      · obtain rfl : Files.join d reference = path := by
          simpa [payloadPaths, hbeside] using h
        exact .beside rfl hbeside
      · obtain ⟨hfile, rfl⟩ : files.isFile reference = true ∧ reference = path := by
          simpa [payloadPaths, hbeside] using h
        refine .here ?_ hfile
        rintro e ⟨⟩
        exact Bool.eq_false_iff.2 hbeside
  · rintro (⟨rfl, hfile⟩ | ⟨hnone, hfile⟩)
    · simp [payloadPaths, hfile]
    · cases directory with
      | none => simp [payloadPaths, hfile]
      | some d => simp [payloadPaths, hfile, hnone d rfl]

/-- The content that the file of a reference has for a payload: that of its `FirstFile`, which
`IsBracketed`. -/
def Supplies (files : Files.Tree) (directory : Option String) (reference content : String) : Prop :=
  ∃ path, FirstFile files directory reference path ∧ files.readText path = .ok content ∧
    IsBracketed content

/-- **What is found for a reference** is the content of the first file that it leads to:
`payloadFiles` gives what the file `Supplies`. -/
theorem payloadFiles_eq_ok_iff {reference content : String} :
    payloadFiles files directory reference = .ok content ↔
      Supplies files directory reference content := by
  simp only [Supplies, ← find?_payloadPaths_eq_some_iff, payloadFiles]
  cases (payloadPaths directory reference).find? files.isFile with
  | none => simp
  | some path =>
    cases hread : files.readText path with
    | error fault => simp [hread]
    | ok text =>
      -- what was read is the content, so it is in brackets exactly if the content is
      simp only [hread, checkedPayload_eq_ok_iff, Option.some.injEq, exists_eq_left',
        Except.ok.injEq]
      exact and_congr_right (by rintro rfl; exact Iff.rfl)

/-- A file next to the case that does not do is not made up for by one that would. -/
example : payloadFiles
    ⟨[("cases", .directory [("body.json", .file (some "none"))]),
      ("body.json", .file (some "[]"))], []⟩ (some "cases") "body.json" =
    .error (.unbracketed "cases/body.json") := rfl

end Loading

open Loading (payloadFiles Supplies)

/-! ## Steps -/

namespace Step

/-- The step as it is loaded: the content of the file that its payload names stands in the place of
the payload, and a payload that names no file stays. -/
inductive Inlines (files : Files.Tree) (directory : Option String) : Step → Step → Prop
  | kept {s : Step}
      (hnames : ∀ payload, s.request.payload = some payload →
        Text.startsWith "file:" (Text.trim payload) = false) :
      Inlines files directory s s
  | supplied {s : Step} {payload reference content : String}
      (hpayload : s.request.payload = some payload) (hnames : NamesFile payload reference)
      (hcontent : Supplies files directory reference content) :
      Inlines files directory s { s with request := { s.request with payload := some content } }

/-- **A step is loaded** as the one with the content of its file put in. -/
theorem inlined_eq_ok_iff {s t : Step} :
    s.inlined (payloadFiles files directory) = .ok t ↔ Inlines files directory s t := by
  constructor
  · intro h
    unfold inlined at h
    split at h
    · next hnone =>
      obtain rfl := Except.ok.inj h
      refine .kept fun payload hpayload => ?_
      exact payloadReference?_eq_none_iff.1 (Option.bind_eq_none_iff.1 hnone payload hpayload)
    · next reference hsome =>
      obtain ⟨payload, hpayload, hreference⟩ := Option.bind_eq_some_iff.1 hsome
      split at h
      · next content hcontent =>
        obtain rfl := Except.ok.inj h
        exact .supplied hpayload (payloadReference?_eq_some_iff.1 hreference)
          (Loading.payloadFiles_eq_ok_iff.1 hcontent)
      · cases h
  · rintro (hnames | ⟨hpayload, hnames, hcontent⟩)
    · refine inlined_eq_self (Option.bind_eq_none_iff.2 ?_)
      exact fun payload hpayload => payloadReference?_eq_none_iff.2 (hnames payload hpayload)
    · simp only [inlined, hpayload, Option.bind_some, payloadReference?_eq_some_iff.2 hnames,
        Loading.payloadFiles_eq_ok_iff.2 hcontent]

/-- Whatever file the payload of the step names, there is a content for it. -/
def Supplied (files : Files.Tree) (directory : Option String) (s : Step) : Prop :=
  ∀ payload reference, s.request.payload = some payload → NamesFile payload reference →
    ∃ content, Supplies files directory reference content

theorem exists_inlines_iff {s : Step} :
    (∃ t, Inlines files directory s t) ↔ s.Supplied files directory := by
  constructor
  · rintro ⟨t, hnames | ⟨hpayload, hnames, hcontent⟩⟩ payload reference hpayload' hnames'
    · have hnone := payloadReference?_eq_none_iff.2 (hnames payload hpayload')
      rw [payloadReference?_eq_some_iff.2 hnames'] at hnone
      cases hnone
    · -- a payload names one file only
      obtain rfl := Option.some.inj (hpayload.symm.trans hpayload')
      obtain rfl := Option.some.inj ((payloadReference?_eq_some_iff.2 hnames).symm.trans
        (payloadReference?_eq_some_iff.2 hnames'))
      exact ⟨_, hcontent⟩
  · intro h
    cases hreference : s.request.payload.bind payloadReference? with
    | none => exact ⟨s, inlined_eq_ok_iff.1 (inlined_eq_self hreference)⟩
    | some reference =>
      obtain ⟨payload, hpayload, hsome⟩ := Option.bind_eq_some_iff.1 hreference
      have hnames := payloadReference?_eq_some_iff.1 hsome
      obtain ⟨content, hcontent⟩ := h payload reference hpayload hnames
      exact ⟨_, .supplied hpayload hnames hcontent⟩

/-- A step that was loaded names no file any more, by `IsBracketed.names_nothing`. -/
theorem Inlines.names_nothing {s t : Step} (h : Inlines files directory s t) {payload : String}
    (hpayload : t.request.payload = some payload) :
    Text.startsWith "file:" (Text.trim payload) = false := by
  cases h with
  | kept hnames => exact hnames payload hpayload
  | supplied _ _ hcontent =>
    obtain ⟨path, -, -, hbracketed⟩ := hcontent
    obtain rfl := Option.some.inj hpayload
    exact hbracketed.names_nothing

end Step

/-! ## Cases -/

namespace TestCase

/-- The case as it is loaded: its steps are, and nothing else changes. -/
structure Inlines (files : Files.Tree) (directory : Option String) (c d : TestCase) : Prop where
  name_eq : d.name = c.name
  description_eq : d.description = c.description
  steps : ∀ phase, List.Forall₂ (Step.Inlines files directory) (c.steps phase) (d.steps phase)

/-- **A case is loaded** when each of its steps is. -/
theorem inlined_eq_ok_iff {c d : TestCase} :
    c.inlined (payloadFiles files directory) = .ok d ↔ Inlines files directory c d := by
  simp only [inlined, Decoding.bind_eq_ok_iff, Decoding.mapM_eq_ok_iff, Step.inlined_eq_ok_iff]
  constructor
  · rintro ⟨preconditions, hpreconditions, setup, hsetup, execution, hexecution, cleanup, hcleanup,
      hd⟩
    obtain rfl := Except.ok.inj hd
    refine ⟨rfl, rfl, fun phase => ?_⟩
    cases phase with
    | preconditions => exact hpreconditions
    | setup => exact hsetup
    | execution => exact hexecution
    | cleanup => exact hcleanup
  · rintro ⟨hname, hdescription, hsteps⟩
    refine ⟨d.preconditions, hsteps .preconditions, d.setup, hsteps .setup, d.execution,
      hsteps .execution, d.cleanup, hsteps .cleanup, ?_⟩
    rw [← hname, ← hdescription]
    rfl

theorem exists_inlines_iff {c : TestCase} :
    (∃ d, Inlines files directory c d) ↔
      ∀ phase, ∀ s ∈ c.steps phase, s.Supplied files directory := by
  simp only [← Step.exists_inlines_iff, ← Decoding.exists_forall₂_iff]
  constructor
  · rintro ⟨d, -, -, hsteps⟩ phase
    exact ⟨_, hsteps phase⟩
  · intro h
    choose steps hsteps using h
    refine ⟨⟨c.name, c.description, steps .preconditions, steps .setup, steps .execution,
      steps .cleanup⟩, rfl, rfl, fun phase => ?_⟩
    cases phase <;> exact hsteps _

namespace Inlines

variable {c d : TestCase}

/-- A case that was loaded lacks what the case of the document lacks. -/
theorem invalid?_eq_none_iff (h : Inlines files directory c d) :
    d.invalid? = none ↔ Text.isBlank c.name = false ∧ c.execution ≠ [] := by
  have hlength : c.execution.length = d.execution.length := (h.steps .execution).length_eq
  rw [TestCase.invalid?_eq_none_iff, h.name_eq, Ne, Ne, ← List.length_eq_zero_iff,
    ← List.length_eq_zero_iff, hlength]

theorem names_nothing (h : Inlines files directory c d) {phase : Phase} :
    ∀ s ∈ d.steps phase, ∀ payload, s.request.payload = some payload →
      Text.startsWith "file:" (Text.trim payload) = false := by
  have hsettled : List.Forall₂ (fun t s => (∀ payload, t.request.payload = some payload →
      Text.startsWith "file:" (Text.trim payload) = false) ∧ Step.Inlines files directory s t)
      (d.steps phase) (c.steps phase) :=
    (h.steps phase).flip.imp fun t s hst => ⟨fun payload => hst.names_nothing, hst⟩
  exact ((List.forall₂_and_left _ _).1 hsettled).1

end Inlines

/-! ## Documents -/

/-- What a document stands for: what is under a key `test` that has nothing beside it, or else the
document (`unwrapped`). -/
def Unwraps (document inner : Node) : Prop :=
  document = wrapped "test" inner ∨ (inner = document ∧ ∀ v, document ≠ wrapped "test" v)

theorem unwrapped_eq_iff {document inner : Node} :
    Decoding.unwrapped "test" document = inner ↔ Unwraps document inner := by
  constructor
  · rintro rfl
    by_cases h : ∃ v, document = wrapped "test" v
    · obtain ⟨v, rfl⟩ := h
      exact .inl (by rw [Decoding.unwrapped_wrapped])
    · refine .inr ⟨?_, not_exists.1 h⟩
      exact (Decoding.unwrapped_cases "test" document).resolve_left fun hw => h ⟨_, hw⟩
  · rintro (rfl | ⟨rfl, hbare⟩)
    · exact Decoding.unwrapped_wrapped "test" inner
    · exact (Decoding.unwrapped_cases "test" inner).resolve_left (hbare _)

/-- The document is one of a case that can be loaded: there is a content for every file that the
payloads of its steps name (`Supplied`), and the case has a name and something to execute. -/
structure Loads (files : Files.Tree) (directory : Option String) (document : Node) (c : TestCase) :
    Prop where
  describes : ∃ inner, Unwraps document inner ∧ Decoding.testCase .yaml inner = .ok c
  supplied : ∀ phase, ∀ s ∈ c.steps phase, s.Supplied files directory
  named : Text.isBlank c.name = false
  executes : c.execution ≠ []

theorem ofNode_eq_ok_iff_loads {document : Node} {d : TestCase} :
    ofNode (payloadFiles files directory) document = .ok d ↔
      ∃ c, Loads files directory document c ∧ Inlines files directory c d := by
  simp only [ofNode_eq_ok_iff, checked_eq_ok_iff, inlined_eq_ok_iff]
  constructor
  · rintro ⟨c, hc, d, hinlines, hvalid, rfl⟩
    obtain ⟨hnamed, hexecutes⟩ := hinlines.invalid?_eq_none_iff.1 hvalid
    exact ⟨c, ⟨⟨_, unwrapped_eq_iff.1 rfl, hc⟩, exists_inlines_iff.1 ⟨d, hinlines⟩, hnamed,
      hexecutes⟩, hinlines⟩
  · rintro ⟨c, ⟨⟨inner, hinner, hc⟩, -, hnamed, hexecutes⟩, hinlines⟩
    obtain rfl := unwrapped_eq_iff.2 hinner
    exact ⟨c, hc, d, hinlines, hinlines.invalid?_eq_none_iff.2 ⟨hnamed, hexecutes⟩, rfl⟩

/-- **Payloads from files are put in completely, or the case is not loaded.**  `TestCase.ofNode`
accepts a document exactly if it `Unwraps` to a case with a name and something to execute, in any
phase of which every file that a payload names is `Supplied`.  What it is loaded as is the
described case with exactly these files put in (`Inlines`), so that no payload names a file any
more.  The case of a text (`TestCase.ofYaml`) is the one of its document. -/
theorem ofNode_inlines (files : Files.Tree) (directory : Option String) (document : Node) :
    ((∃ d, ofNode (payloadFiles files directory) document = .ok d) ↔
        ∃ c, Loads files directory document c) ∧
      (∀ d, ofNode (payloadFiles files directory) document = .ok d ↔
        ∃ c, Loads files directory document c ∧ Inlines files directory c d) ∧
      (∀ d, ofNode (payloadFiles files directory) document = .ok d →
        ∀ phase, ∀ s ∈ d.steps phase, ∀ payload, s.request.payload = some payload →
          Text.startsWith "file:" (Text.trim payload) = false) ∧
      ∀ text, Yaml.node? text = some document →
        ofYaml (payloadFiles files directory) text =
          ofNode (payloadFiles files directory) document := by
  refine ⟨?_, fun d => ofNode_eq_ok_iff_loads, ?_, fun text htext => ofYaml_eq_ofNode htext⟩
  · constructor
    · rintro ⟨d, hd⟩
      obtain ⟨c, hloads, -⟩ := ofNode_eq_ok_iff_loads.1 hd
      exact ⟨c, hloads⟩
    · rintro ⟨c, hloads⟩
      obtain ⟨d, hinlines⟩ := exists_inlines_iff.2 hloads.supplied
      exact ⟨d, ofNode_eq_ok_iff_loads.2 ⟨c, hloads, hinlines⟩⟩
  · intro d hd phase
    obtain ⟨c, -, hinlines⟩ := ofNode_eq_ok_iff_loads.1 hd
    exact hinlines.names_nothing

end TestCase

end RestCase
