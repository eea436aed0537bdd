/-
# RestCase.Proofs.Json.Indented — indented texts

The indented text differs from the compact one in the blanks between the parts, and blanks are
nothing to a reader: both spell the document (`spells_renderIndented`).  So the indented text of a
document is read as that document (`readDocument_indented`), which is what a report in JSON rests
on.
-/
import RestCase.Proofs.Json.Spelling

namespace RestCase.Json

theorem gaps_newLine (depth : Nat) : Gaps (newLine depth) := by
  intro c hc
  rcases List.mem_cons.1 hc with rfl | hblank
  · rfl
  · obtain rfl := (List.mem_replicate.1 hblank).2
    rfl

theorem gaps_space : Gaps [' '] := by
  intro c hc
  obtain rfl := List.mem_singleton.1 hc
  rfl

mutual
/-- **The indented text spells the document**, as long as every number in it is an integer of 64
bits. -/
theorem spells_renderIndented : ∀ (v : Json) (depth : Nat), v.isIntegral = true →
    Spells v (renderIndented depth v)
  | .null, _, _ => .null
  | .bool b, _, _ => .bool b
  | .int _, _, h => .int (of_decide_eq_true h)
  | .float _, _, h => nomatch h
  | .string s, _, _ => .string s
  | .array [], _, _ => .emptyArray gaps_nil
  | .array (v :: r), depth, h => by
    rw [isIntegral, integralItems, Bool.and_eq_true] at h
    have hfirst := spells_renderIndented v (depth + 1) h.1
    have hitems := spellsItems_indentedItems r (depth + 1) h.2 hfirst (gaps_newLine depth)
    simpa [renderIndented] using Spells.array (gaps_newLine (depth + 1)) hitems
  | .object [], _, _ => .emptyObject gaps_nil
  | .object ((k, v) :: r), depth, h => by
    rw [isIntegral, integralMembers, Bool.and_eq_true] at h
    have hfirst := spells_renderIndented v (depth + 1) h.1
    have hmembers := spellsMembers_indentedMembers r (depth + 1) h.2 k hfirst (gaps_newLine depth)
    simpa [renderIndented] using Spells.object (gaps_newLine (depth + 1)) hmembers

/-- Behind the first item the others follow, each on its own line. -/
theorem spellsItems_indentedItems : ∀ (r : List Json) (depth : Nat), integralItems r = true →
    ∀ {v : Json} {t g : List Char}, Spells v t → Gaps g →
      SpellsItems (v :: r) (t ++ (indentedItems depth r ++ g))
  | [], _, _, _, _, _, hv, hg => .last hv hg
  | w :: r, depth, h, v, t, g, hv, hg => by
    rw [integralItems, Bool.and_eq_true] at h
    have hnext := spells_renderIndented w depth h.1
    have hrest := spellsItems_indentedItems r depth h.2 hnext hg
    simpa [indentedItems] using SpellsItems.more hv gaps_nil (gaps_newLine depth) hrest

/-- Behind the first member the others follow, each on its own line. -/
theorem spellsMembers_indentedMembers : ∀ (r : List (String × Json)) (depth : Nat),
    integralMembers r = true → ∀ (k : String) {v : Json} {t g : List Char}, Spells v t → Gaps g →
      SpellsMembers ((k, v) :: r) (quote k ++ ':' :: ' ' :: (t ++ (indentedMembers depth r ++ g)))
  | [], _, _, k, v, t, g, hv, hg => by
    simpa [indentedMembers] using SpellsMembers.last (k := k) gaps_nil gaps_space hv hg
  | (l, w) :: r, depth, h, k, v, t, g, hv, hg => by
    rw [integralMembers, Bool.and_eq_true] at h
    have hnext := spells_renderIndented w depth h.1
    have hrest := spellsMembers_indentedMembers r depth h.2 l hnext hg
    simpa [indentedMembers] using
      SpellsMembers.more (k := k) gaps_nil gaps_space hv gaps_nil (gaps_newLine depth) hrest
end

/-- **The indented text of a document is read as that document**, as it `Spells` it. -/
theorem readDocument_indented {v : Json} (hintegral : v.isIntegral = true)
    (hdepth : v.depth ≤ maxDepth) : readDocument v.indented = .ok v := by
  have h := readWhole_of_spells (spells_renderIndented v 0 hintegral) hdepth gaps_nil gaps_nil
  rw [List.nil_append, List.append_nil] at h
  unfold readDocument indented
  rw [String.toList_ofList, h]
  rfl

/-- The value that an indented text holds is the document in normal form. -/
theorem parse_indented {v : Json} (hintegral : v.isIntegral = true) (hdepth : v.depth ≤ maxDepth) :
    parse v.indented = .ok v.normalize := by
  rw [parse, readDocument_indented hintegral hdepth]
  rfl

end RestCase.Json
