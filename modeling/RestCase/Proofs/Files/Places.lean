/-
# RestCase.Proofs.Files.Places — what stands at the places of a tree

What a path leads to, and whether it is a file, depends on what stands at the places of a tree and
not on the order in which the directories list it.  So trees are compared place by place: a tree
whose directories list their entries in another order has the same at each place
(`Relisted.face_eq`), and a tree with one file more has the same at each place but one
(`Adds.face_eq`).  What paths lead to in such trees follows (`Relists.locate_eq`,
`Lacks.readText_iff`).

A `face` is what can be seen of an entry without looking below it.
-/
import Mathlib.Data.List.Nodup
import RestCase.Proofs.Files.Paths

namespace RestCase.Files

/-! ## Sound trees -/

/-- The entries below have names (`IsName`), and in no directory a name comes twice. -/
inductive Sound : Entry → Prop
  | file (text : Option String) : Sound (.file text)
  | directory {l : List (String × Entry)} (distinct : (l.map Prod.fst).Nodup)
      (named : ∀ e ∈ l, IsName e.1) (below : ∀ e ∈ l, Sound e.2) : Sound (.directory l)

theorem sound_directory_iff {l : List (String × Entry)} : Sound (.directory l) ↔
    (l.map Prod.fst).Nodup ∧ (∀ e ∈ l, IsName e.1) ∧ ∀ e ∈ l, Sound e.2 := by
  constructor
  · intro h
    cases h with
    | directory distinct named below => exact ⟨distinct, named, below⟩
  · rintro ⟨distinct, named, below⟩
    exact .directory distinct named below

theorem lookup_eq_some_iff {l : List (String × Entry)} (h : (l.map Prod.fst).Nodup) {name : String}
    {e : Entry} : lookup name l = some e ↔ (name, e) ∈ l := by
  induction l with
  | nil => simp [lookup]
  | cons first l ih =>
    obtain ⟨n, f⟩ := first
    rw [List.map_cons, List.nodup_cons] at h
    rw [lookup, List.mem_cons, Prod.mk.injEq]
    split
    next heq =>
      subst heq
      have hnot : (n, e) ∉ l := fun hmem => h.1 (List.mem_map.2 ⟨_, hmem, rfl⟩)
      simp [hnot, eq_comm]
    next hne => simp [ih h.2, Ne.symm hne]

theorem lookup_eq_none_iff {l : List (String × Entry)} {name : String} :
    lookup name l = none ↔ name ∉ l.map Prod.fst := by
  induction l with
  | nil => simp [lookup]
  | cons first l ih =>
    obtain ⟨n, f⟩ := first
    rw [lookup, List.map_cons, List.mem_cons, not_or]
    split
    next heq => simp [heq]
    next hne => simp [ih, Ne.symm hne]

theorem lookup_append (name : String) (l m : List (String × Entry)) :
    lookup name (l ++ m) = (lookup name l).or (lookup name m) := by
  induction l with
  | nil => rfl
  | cons first l ih =>
    obtain ⟨n, f⟩ := first
    rw [List.cons_append, lookup, lookup]
    split
    next => rfl
    next => exact ih

/-! ## Faces -/

/-- An entry without what stands below it. -/
def Entry.bare : Entry → Entry
  | file text => .file text
  | directory _ => .directory []

/-- What stands at a place below an entry (`entryAt?`), without what stands below that
(`Entry.bare`). -/
def face (e : Entry) (place : Place) : Option Entry := (entryAt? place e).map Entry.bare

theorem face_directory_cons (l : List (String × Entry)) (name : String) (r : Place) :
    face (.directory l) (name :: r) = (lookup name l).bind fun e => face e r := by
  unfold face
  rw [entryAt?]
  cases lookup name l <;> rfl

theorem entryAt?_append (p r : Place) (e : Entry) :
    entryAt? (p ++ r) e = (entryAt? p e).bind (entryAt? r) := by
  induction p generalizing e with
  | nil => rfl
  | cons name p ih =>
    cases e with
    | file text => rfl
    | directory l =>
      rw [List.cons_append, entryAt?, entryAt?]
      cases lookup name l with
      | none => rfl
      | some e => exact ih e

/-- What stands below a sound entry is sound. -/
theorem Sound.entryAt? {e f : Entry} {place : Place} (h : Sound e)
    (hf : entryAt? place e = some f) : Sound f := by
  induction place generalizing e with
  | nil =>
    obtain rfl := Option.some.inj hf
    exact h
  | cons name r ih =>
    cases h with
    | file text => cases hf
    | directory distinct _ below =>
      obtain ⟨g, hg, hf⟩ := Option.bind_eq_some_iff.1 hf
      exact ih (below _ ((lookup_eq_some_iff distinct).1 hg)) hf

/-- The way to it consists of names. -/
theorem Sound.names {e f : Entry} {place : Place} (h : Sound e)
    (hf : Files.entryAt? place e = some f) : ∀ name ∈ place, IsName name := by
  induction place generalizing e with
  | nil => exact List.forall_mem_nil _
  | cons name r ih =>
    cases h with
    | file text => cases hf
    | directory distinct named below =>
      obtain ⟨g, hg, hf⟩ := Option.bind_eq_some_iff.1 hf
      have hmem := (lookup_eq_some_iff distinct).1 hg
      exact List.forall_mem_cons.2 ⟨named _ hmem, ih (below _ hmem) hf⟩

theorem face_eq_file_iff {e : Entry} {place : Place} {text : Option String} :
    face e place = some (.file text) ↔ entryAt? place e = some (.file text) := by
  unfold face
  cases entryAt? place e with
  | none => simp
  | some f => cases f <;> simp [Entry.bare]

theorem face_eq_directory_iff {e : Entry} {place : Place} :
    face e place = some (.directory []) ↔ ∃ l, entryAt? place e = some (.directory l) := by
  unfold face
  cases entryAt? place e with
  | none => simp
  | some f => cases f <;> simp [Entry.bare]

/-! ## Other orders -/

/-- The entries of a directory in another order, those of directories below it as well. -/
inductive Relisted : List (String × Entry) → List (String × Entry) → Prop
  | order {l l' : List (String × Entry)} (h : l.Perm l') : Relisted l l'
  | within {inner inner' : List (String × Entry)} (front back : List (String × Entry))
      (name : String) (h : Relisted inner inner') :
      Relisted (front ++ (name, .directory inner) :: back)
        (front ++ (name, .directory inner') :: back)
  | trans {l m n : List (String × Entry)} (h : Relisted l m) (h' : Relisted m n) : Relisted l n

/-- An entry of a sound directory is sound. -/
theorem Sound.entry {front back : List (String × Entry)} {name : String} {e : Entry}
    (h : Sound (.directory (front ++ (name, e) :: back))) : Sound e :=
  (sound_directory_iff.1 h).2.2 (name, e) (by simp)

/-- A sound directory stays sound with another sound entry under a name. -/
theorem Sound.exchange {front back : List (String × Entry)} {name : String} {e f : Entry}
    (h : Sound (.directory (front ++ (name, e) :: back))) (hf : Sound f) :
    Sound (.directory (front ++ (name, f) :: back)) := by
  rw [sound_directory_iff] at h ⊢
  simp only [List.map_append, List.map_cons, List.forall_mem_append, List.forall_mem_cons] at h ⊢
  obtain ⟨distinct, ⟨hfront, hname, hback⟩, hsoundFront, -, hsoundBack⟩ := h
  exact ⟨distinct, ⟨hfront, hname, hback⟩, hsoundFront, hf, hsoundBack⟩

theorem Relisted.sound {l l' : List (String × Entry)} (h : Relisted l l')
    (hl : Sound (.directory l)) : Sound (.directory l') := by
  induction h with
  | order hperm =>
    obtain ⟨distinct, named, below⟩ := sound_directory_iff.1 hl
    exact .directory ((hperm.map Prod.fst).nodup_iff.1 distinct)
      (fun e he => named e (hperm.mem_iff.2 he)) (fun e he => below e (hperm.mem_iff.2 he))
  | within front back name _ ih => exact hl.exchange (ih hl.entry)
  | trans _ _ ih ih' => exact ih' (ih hl)

/-- The faces of a directory change below one name only if the entry under it does. -/
theorem face_eq_of_exchange {front back : List (String × Entry)} {name : String} {e f : Entry}
    {place : Place} (h : ∀ r, place = name :: r → face e r = face f r) :
    face (.directory (front ++ (name, e) :: back)) place =
      face (.directory (front ++ (name, f) :: back)) place := by
  cases place with
  | nil => rfl
  | cons n r =>
    rw [face_directory_cons, face_directory_cons, lookup_append, lookup_append, lookup, lookup]
    split
    next heq =>
      cases lookup n front with
      | none => exact h r (heq ▸ rfl)
      | some g => rfl
    next => rfl

/-- **Another order of the entries changes nothing at any place**: every `face` is the same. -/
theorem Relisted.face_eq {l l' : List (String × Entry)} (h : Relisted l l')
    (hl : Sound (.directory l)) : face (.directory l') = face (.directory l) := by
  induction h with
  | @order l l' hperm =>
    obtain ⟨distinct, -, -⟩ := sound_directory_iff.1 hl
    have distinct' := (hperm.map Prod.fst).nodup_iff.1 distinct
    have hlookup : ∀ name, lookup name l' = lookup name l := fun name => Option.ext fun e =>
      (lookup_eq_some_iff distinct').trans
        (hperm.mem_iff.symm.trans (lookup_eq_some_iff distinct).symm)
    funext place
    cases place with
    | nil => rfl
    | cons name r => rw [face_directory_cons, face_directory_cons, hlookup name]
  | within front back name _ ih =>
    have hinner := ih hl.entry
    exact funext fun place => face_eq_of_exchange fun r _ => congrFun hinner r
  | trans h _ ih ih' => exact (ih' (h.sound hl)).trans (ih hl)

/-! ## One file more -/

/-- The entries of a directory with one file more, in it or below. -/
inductive Adds (text : Option String) :
    Place → List (String × Entry) → List (String × Entry) → Prop
  | here (front back : List (String × Entry)) (name : String) :
      Adds text [name] (front ++ back) (front ++ (name, .file text) :: back)
  | within {place : Place} {inner inner' : List (String × Entry)}
      (front back : List (String × Entry)) (name : String) (h : Adds text place inner inner') :
      Adds text (name :: place) (front ++ (name, .directory inner) :: back)
        (front ++ (name, .directory inner') :: back)

/-- In a sound directory no other entry has the name of an entry. -/
theorem Sound.lookup_front {front back : List (String × Entry)} {name : String} {e : Entry}
    (h : Sound (.directory (front ++ (name, e) :: back))) :
    lookup name front = none ∧ lookup name back = none := by
  obtain ⟨distinct, -, -⟩ := sound_directory_iff.1 h
  rw [List.map_append, List.map_cons, List.nodup_middle, List.nodup_cons, List.mem_append,
    not_or] at distinct
  exact ⟨lookup_eq_none_iff.2 distinct.1.1, lookup_eq_none_iff.2 distinct.1.2⟩

theorem Adds.sound {text : Option String} {place : Place} {l l' : List (String × Entry)}
    (h : Adds text place l l') (hl : Sound (.directory l')) : Sound (.directory l) := by
  induction h with
  | here front back name =>
    obtain ⟨distinct, named, below⟩ := sound_directory_iff.1 hl
    rw [List.map_append, List.map_cons, List.nodup_middle, List.nodup_cons, ← List.map_append]
      at distinct
    have hmem : ∀ e ∈ front ++ back, e ∈ front ++ (name, Entry.file text) :: back := by
      intro e he
      rcases List.mem_append.1 he with he | he <;> simp [he]
    exact .directory distinct.2 (fun e he => named e (hmem e he)) (fun e he => below e (hmem e he))
  | within front back name _ ih => exact hl.exchange (ih hl.entry)

/-- **One file more changes one place**: every other `face` is the same. -/
theorem Adds.face_eq {text : Option String} {place : Place} {l l' : List (String × Entry)}
    (h : Adds text place l l') (hl : Sound (.directory l')) :
    face (.directory l) place = none ∧ face (.directory l') place = some (.file text) ∧
      ∀ p, p ≠ place → face (.directory l) p = face (.directory l') p := by
  induction h with
  | here front back name =>
    obtain ⟨hfront, hback⟩ := hl.lookup_front
    have hmissing : lookup name (front ++ back) = none := by
      rw [lookup_append, hfront, hback, Option.or_none]
    refine ⟨?_, ?_, fun p hp => ?_⟩
    · rw [face_directory_cons, hmissing, Option.bind_none]
    · rw [face_directory_cons, lookup_append, hfront, lookup, if_pos rfl]
      rfl
    · cases p with
      | nil => rfl
      | cons n r =>
        rw [face_directory_cons, face_directory_cons]
        -- below the new file there is nothing; the other names lead where they led before
        by_cases hn : name = n
        · subst hn
          rw [hmissing, lookup_append, hfront, lookup, if_pos rfl]
          cases r with
          | nil => exact absurd rfl hp
          | cons m r => rfl
        · rw [lookup_append, lookup_append, lookup, if_neg hn]
  | within front back name h ih =>
    obtain ⟨hmissing, hfile, hsame⟩ := ih hl.entry
    obtain ⟨hfront, -⟩ := hl.lookup_front
    refine ⟨?_, ?_, fun p hp => ?_⟩
    · rw [face_directory_cons, lookup_append, hfront, lookup, if_pos rfl]
      exact hmissing
    · rw [face_directory_cons, lookup_append, hfront, lookup, if_pos rfl]
      exact hfile
    · refine face_eq_of_exchange fun r hr => hsame r fun heq => hp ?_
      rw [hr, heq]

/-! ## Steps -/

/-- A step along a path (`follow`) depends on what stands at two places only. -/
theorem follow_eq (root : Entry) (place : Place) (part : String) :
    follow root place part = match face root place with
      | none => .error .notFound
      | some (.file _) => .error .notDirectory
      | some (.directory _) =>
        if isIdle part then .ok place
        else if part = ".." then .ok place.dropLast
        else if 255 < part.utf8ByteSize then .error .longName
        else if (face root (place ++ [part])).isSome then .ok (place ++ [part])
        else .error .notFound := by
  unfold follow face
  cases hplace : entryAt? place root with
  | none => rfl
  | some e =>
    cases e with
    | file text => rfl
    | directory l =>
      -- what stands at the next place is what the directory has under the name
      have hnext : entryAt? (place ++ [part]) root = lookup part l := by
        rw [entryAt?_append, hplace, Option.bind_some, entryAt?]
        cases lookup part l <;> rfl
      rw [hnext]
      cases hlookup : lookup part l <;> simp [Entry.bare, hlookup]

namespace Tree

variable {t t' : Tree} {path : String}

theorem find_eq_ok_iff {e : Entry} :
    t.find path = .ok e ↔ ∃ x, t.locate path = .ok x ∧ entryAt? x t.rootEntry = some e := by
  unfold find
  rw [Decoding.bind_eq_ok_iff]
  refine exists_congr fun x => and_congr_right fun _ => ?_
  cases entryAt? x t.rootEntry with
  | none => simp [throw, throwThe, MonadExceptOf.throw]
  | some f => simp [pure, Except.pure]

theorem isFile_iff : t.isFile path = true ↔
    ∃ x text, t.locate path = .ok x ∧ face t.rootEntry x = some (.file text) := by
  have hfind : t.isFile path = true ↔ ∃ text, t.find path = .ok (.file text) := by
    unfold isFile
    cases t.find path with
    | error fault => simp
    | ok e => cases e <;> simp
  simp only [hfind, find_eq_ok_iff, face_eq_file_iff]
  exact exists_comm

theorem isDirectory_iff : t.isDirectory path = true ↔
    ∃ x, t.locate path = .ok x ∧ face t.rootEntry x = some (.directory []) := by
  have hfind : t.isDirectory path = true ↔ ∃ l, t.find path = .ok (.directory l) := by
    unfold isDirectory
    cases t.find path with
    | error fault => simp
    | ok e => cases e <;> simp
  simp only [hfind, find_eq_ok_iff, face_eq_directory_iff]
  rw [exists_comm]
  simp only [exists_and_left]

theorem readText_eq_ok_iff {text : String} : t.readText path = .ok text ↔
    ∃ x, t.locate path = .ok x ∧ face t.rootEntry x = some (.file (some text)) := by
  unfold readText
  simp only [Decoding.bind_eq_ok_iff, find_eq_ok_iff, face_eq_file_iff]
  constructor
  · rintro ⟨e, ⟨x, hx, he⟩, htext⟩
    refine ⟨x, hx, he.trans ?_⟩
    cases e with
    | directory l => cases htext
    | file content =>
      cases content with
      | none => cases htext
      | some s => rw [Except.ok.inj htext]
  · rintro ⟨x, hx, he⟩
    exact ⟨_, ⟨x, hx, he⟩, rfl⟩

theorem readDirectory_eq_ok_iff {l : List (String × Entry)} : t.readDirectory path = .ok l ↔
    ∃ x, t.locate path = .ok x ∧ entryAt? x t.rootEntry = some (.directory l) := by
  unfold readDirectory
  simp only [Decoding.bind_eq_ok_iff, find_eq_ok_iff]
  constructor
  · rintro ⟨e, ⟨x, hx, he⟩, hl⟩
    refine ⟨x, hx, he.trans ?_⟩
    cases e with
    | directory m => rw [Except.ok.inj hl]
    | file text => cases hl
  · rintro ⟨x, hx, he⟩
    exact ⟨_, ⟨x, hx, he⟩, rfl⟩

/-! ## Trees whose directories list their entries in another order -/

/-- The other tree has the same entries, in any order (`Relisted`). -/
structure Relists (t t' : Tree) : Prop where
  here : t'.here = t.here
  root : Relisted t.root t'.root

theorem Relists.face_eq (h : t.Relists t') (ht : Sound t.rootEntry) :
    face t'.rootEntry = face t.rootEntry := h.root.face_eq ht

/-- Paths lead to the same places. -/
theorem Relists.locate_eq (h : t.Relists t') (ht : Sound t.rootEntry) : t'.locate = t.locate := by
  have hfollow : follow t'.rootEntry = follow t.rootEntry := by
    funext place part
    rw [follow_eq, follow_eq, h.face_eq ht]
  funext path
  unfold locate
  rw [hfollow, h.here]

/-! ## Trees that lack one file -/

/-- The tree lacks one file of the other one (`Adds`). -/
structure Lacks (t : Tree) (place : Place) (text : Option String) (t' : Tree) : Prop where
  here : t.here = t'.here
  root : Adds text place t.root t'.root

namespace Lacks

variable {place x y : Place} {text : Option String} {part : String}

/-- A step is the same in both trees unless it ends at the file. -/
theorem follow_iff (h : t.Lacks place text t') (ht' : Sound t'.rootEntry) (hy : y ≠ place) :
    follow t.rootEntry x part = .ok y ↔ follow t'.rootEntry x part = .ok y := by
  obtain ⟨hmissing, hfile, hsame⟩ := h.root.face_eq ht'
  by_cases hx : x = place
  · -- there is no way on from the file
    have hnone : face t.rootEntry x = none := hx ▸ hmissing
    have hsome : face t'.rootEntry x = some (.file text) := hx ▸ hfile
    rw [follow_eq, follow_eq, hnone, hsome]
    simp
  · have hhere : face t.rootEntry x = face t'.rootEntry x := hsame x hx
    by_cases hnext : x ++ [part] = place
    · have hnone : face t.rootEntry (x ++ [part]) = none := hnext ▸ hmissing
      have hsome : face t'.rootEntry (x ++ [part]) = some (.file text) := hnext ▸ hfile
      -- the step leads to the file or nowhere, and so not to the place in question
      have hnot : x ++ [part] ≠ y := fun heq => hy (heq ▸ hnext)
      rw [follow_eq, follow_eq, hhere, hnone, hsome]
      split
      next => rfl
      next => rfl
      next => split_ifs <;> simp [hnot]
    · have hthere : face t.rootEntry (x ++ [part]) = face t'.rootEntry (x ++ [part]) :=
        hsame _ hnext
      rw [follow_eq, follow_eq, hhere, hthere]

theorem foldlM_follow_iff (h : t.Lacks place text t') (ht' : Sound t'.rootEntry) (hy : y ≠ place)
    (parts : List String) :
    parts.foldlM (follow t.rootEntry) x = .ok y ↔ parts.foldlM (follow t'.rootEntry) x = .ok y := by
  obtain ⟨hmissing, hfile, -⟩ := h.root.face_eq ht'
  induction parts generalizing x with
  | nil => rfl
  | cons part r ih =>
    rw [List.foldlM_cons, List.foldlM_cons, Decoding.bind_eq_ok_iff, Decoding.bind_eq_ok_iff]
    refine exists_congr fun z => ?_
    by_cases hz : z = place
    · -- the place of the file is the end of every way to it
      have hend : ∀ u : Tree, (∀ part, ∃ fault, follow u.rootEntry z part = .error fault) →
          ¬ r.foldlM (follow u.rootEntry) z = .ok y := by
        intro u hu hfold
        cases r with
        | nil => exact hy ((Except.ok.inj hfold).symm.trans hz)
        | cons part' r' =>
          rw [List.foldlM_cons, Decoding.bind_eq_ok_iff] at hfold
          obtain ⟨w, hw, -⟩ := hfold
          obtain ⟨fault, hfault⟩ := hu part'
          rw [hfault] at hw
          cases hw
      refine iff_of_false (fun hleft => hend t (fun part => ?_) hleft.2)
        (fun hright => hend t' (fun part => ?_) hright.2)
      · have hnone : face t.rootEntry z = none := hz ▸ hmissing
        exact ⟨.notFound, by rw [follow_eq, hnone]⟩
      · have hsome : face t'.rootEntry z = some (.file text) := hz ▸ hfile
        exact ⟨.notDirectory, by rw [follow_eq, hsome]⟩
    · rw [follow_iff h ht' hz, ih]

/-- A path that does not lead to the file leads to the same place in both trees. -/
theorem locate_iff (h : t.Lacks place text t') (ht' : Sound t'.rootEntry) (hy : y ≠ place) :
    t.locate path = .ok y ↔ t'.locate path = .ok y := by
  rw [locate_eq_ok_iff, locate_eq_ok_iff, h.here, foldlM_follow_iff h ht' hy]

/-- What stands where a path leads to, in the tree with the file, stands there without it as well,
unless it is the file. -/
theorem face_iff (h : t.Lacks place text t') (ht' : Sound t'.rootEntry) {e : Entry} :
    t.locate path = .ok x ∧ face t.rootEntry x = some e ↔
      x ≠ place ∧ t'.locate path = .ok x ∧ face t'.rootEntry x = some e := by
  obtain ⟨hmissing, -, hsame⟩ := h.root.face_eq ht'
  by_cases hx : x = place
  · have hnone : face t.rootEntry x = none := hx ▸ hmissing
    simp [hx, hx ▸ hnone]
  · have hhere : face t.rootEntry x = face t'.rootEntry x := hsame x hx
    simp [hx, locate_iff h ht' hx, hhere]

theorem isFile_iff (h : t.Lacks place text t') (ht' : Sound t'.rootEntry) :
    t.isFile path = true ↔ t'.isFile path = true ∧ t'.locate path ≠ .ok place := by
  simp only [Tree.isFile_iff, face_iff h ht']
  constructor
  · rintro ⟨x, s, hx, hlocate, hface⟩
    exact ⟨⟨x, s, hlocate, hface⟩, fun heq => hx (Except.ok.inj (hlocate.symm.trans heq))⟩
  · rintro ⟨⟨x, s, hlocate, hface⟩, hnot⟩
    exact ⟨x, s, fun heq => hnot (heq ▸ hlocate), hlocate, hface⟩

theorem readText_iff (h : t.Lacks place text t') (ht' : Sound t'.rootEntry) {s : String} :
    t.readText path = .ok s ↔ t'.readText path = .ok s ∧ t'.locate path ≠ .ok place := by
  simp only [readText_eq_ok_iff, face_iff h ht']
  constructor
  · rintro ⟨x, hx, hlocate, hface⟩
    exact ⟨⟨x, hlocate, hface⟩, fun heq => hx (Except.ok.inj (hlocate.symm.trans heq))⟩
  · rintro ⟨⟨x, hlocate, hface⟩, hnot⟩
    exact ⟨x, fun heq => hnot (heq ▸ hlocate), hlocate, hface⟩

end Lacks

end Tree

end RestCase.Files
