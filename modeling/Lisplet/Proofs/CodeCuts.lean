import Lisplet.Proofs.LineComments

/-!
Cuts in the scan for code. What the scan finds in a text depends on nothing behind it, and behind a
newline outside string literals it starts again. So a line without its comment is the longest part
at its front that has none, and the depths of texts in lines add up.
-/

set_option autoImplicit false

namespace Lisplet

open CodeScan

/-- Every semicolon of the text stands in a string literal. -/
def HasNoComment (text : List Char) : Prop :=
  ∀ i, text[i]? = some ';' → ¬OutsideLiterals text i

namespace CodeScan

theorem filter_codeChars_append (a b : List Char) :
    (codeChars (a ++ b)).filter (fun entry => entry.1 < a.length) = codeChars a := by
  have hbefore : ∀ entry ∈ codeChars a, decide (entry.1 < a.length) = true := by
    intro entry hentry
    have hlt := lt_of_mem_codeFrom (List.mem_map_of_mem hentry)
    simpa using hlt
  have hbehind : ∀ entry ∈ codeFrom [] (Place.boundary.after a) a.length b,
      ¬decide (entry.1 < a.length) = true := by
    intro entry hentry
    have hle := le_of_mem_codeFrom (List.mem_map_of_mem hentry)
    simpa using hle
  rw [codeChars_append, List.filter_append, List.filter_eq_self.mpr hbefore,
    List.filter_eq_nil_iff.mpr hbehind, List.append_nil]

theorem mem_numbered_iff {offset i : Nat} {c : Char} {text : List Char} :
    (offset + i, c) ∈ numbered offset text ↔ text[i]? = some c := by
  induction text generalizing offset i with
  | nil => simp [numbered]
  | cons d rest ih =>
    rw [numbered, List.mem_cons]
    cases i with
    | zero =>
      have hlater : (offset + 0, c) ∉ numbered (offset + 1) rest := fun hmem =>
        absurd (bounds_of_mem_numbered hmem).1 (by simp)
      rw [or_iff_left hlater]
      simp [eq_comm]
    | succ i =>
      have hfirst : (offset + (i + 1), c) ≠ (offset, d) := fun heq =>
        absurd (Prod.mk.inj heq).1 (by omega)
      rw [or_iff_right hfirst, ← Nat.add_assoc, Nat.add_right_comm offset i 1, ih,
        List.getElem?_cons_succ]

theorem mem_codeChars {i : Nat} {c : Char} {text : List Char} :
    (i, c) ∈ codeChars text ↔ text[i]? = some c ∧ OutsideLiterals text i := by
  have hnumbered := @mem_numbered_iff 0 i c text
  rw [Nat.zero_add] at hnumbered
  rw [codeChars_eq_filter, List.mem_filter, hnumbered, decide_eq_true_iff]

theorem hasNoComment_iff {text : List Char} :
    HasNoComment text ↔ ∀ entry ∈ codeChars text, entry.2 ≠ ';' := by
  constructor
  · rintro h ⟨i, c⟩ hmem rfl
    obtain ⟨hsemicolon, houtside⟩ := mem_codeChars.mp hmem
    exact h i hsemicolon houtside
  · intro h i hsemicolon houtside
    exact h _ (mem_codeChars.mpr ⟨hsemicolon, houtside⟩) rfl

theorem pairwise_codeChars (text : List Char) :
    (codeChars text).Pairwise fun entry later => entry.1 < later.1 := by
  have hnumbered : (numbered 0 text).Pairwise fun entry later => entry.1 < later.1 := by
    rw [← List.pairwise_map, numbered_fst]
    exact List.pairwise_lt_range'
  rw [codeChars_eq_filter]
  exact hnumbered.filter _

theorem hasNoComment_take_iff {line : List Char} {n : Nat} (hn : n ≤ line.length) :
    HasNoComment (line.take n) ↔ ∀ entry ∈ codeChars line, entry.1 < n → entry.2 ≠ ';' := by
  have hfilter := filter_codeChars_append (line.take n) (line.drop n)
  rw [List.take_append_drop, List.length_take_of_le hn] at hfilter
  rw [hasNoComment_iff, ← hfilter]
  simp only [List.mem_filter, decide_eq_true_eq, and_imp]

end CodeScan

theorem stripComment_cases (line : List Char) :
    stripComment line = line ∧ HasNoComment line ∨
      ∃ n, n ≤ line.length ∧ stripComment line = line.take n ∧ HasNoComment (line.take n) ∧
        (n, ';') ∈ codeChars line := by
  rw [stripComment]
  split
  · rename_i entry hfind
    obtain ⟨hsemicolon, before, later, hcode, hbefore⟩ := List.find?_eq_some_iff_append.mp hfind
    have hmem : entry ∈ codeChars line := by simp [hcode]
    have hlength := lt_of_mem_codeFrom (List.mem_map_of_mem hmem)
    rw [Nat.zero_add] at hlength
    refine .inr ⟨entry.1, Nat.le_of_lt hlength, rfl, ?_, ?_⟩
    · rw [hasNoComment_take_iff (Nat.le_of_lt hlength)]
      intro other hother hlt
      have hsorted := pairwise_codeChars line
      rw [hcode] at hother hsorted
      rcases List.mem_append.mp hother with hother | hother
      · simpa using hbefore other hother
      · -- What is found at this semicolon or behind it is not before it.
        have hle : entry.1 ≤ other.1 := by
          rcases List.mem_cons.mp hother with rfl | hother
          · exact Nat.le_refl _
          · have hrest := (List.pairwise_append.mp hsorted).2.1
            exact Nat.le_of_lt ((List.pairwise_cons.mp hrest).1 other hother)
        omega
    · rw [← beq_iff_eq.mp hsemicolon]
      exact hmem
  · rename_i hfind
    refine .inl ⟨rfl, hasNoComment_iff.mpr fun entry hentry => ?_⟩
    simpa using List.find?_eq_none.mp hfind entry hentry

theorem hasNoComment_stripComment (line : List Char) : HasNoComment (stripComment line) := by
  rcases stripComment_cases line with ⟨hsame, hnone⟩ | ⟨n, hle, htake, hnone, hcode⟩
  · exact hsame.symm ▸ hnone
  · exact htake.symm ▸ hnone

theorem stripComment_isPrefix (line : List Char) : stripComment line <+: line := by
  rcases stripComment_cases line with ⟨hsame, hnone⟩ | ⟨n, hle, htake, hnone, hcode⟩
  · exact hsame.symm ▸ List.prefix_rfl
  · exact htake.symm ▸ List.take_prefix n line

theorem stripComment_longest {line part : List Char} (hpart : part <+: line)
    (hnone : HasNoComment part) : part <+: stripComment line := by
  rcases stripComment_cases line with ⟨hsame, -⟩ | ⟨n, hle, htake, -, hcode⟩
  · exact hsame.symm ▸ hpart
  · rw [htake, List.prefix_take_iff]
    refine ⟨hpart, ?_⟩
    by_contra hlonger
    rw [List.prefix_iff_eq_take.mp hpart, hasNoComment_take_iff hpart.length_le] at hnone
    exact hnone _ hcode (by omega) rfl

theorem stripComment_of_hasNoComment {line : List Char} (h : HasNoComment line) :
    stripComment line = line :=
  (stripComment_isPrefix line).eq_of_length_le
    (stripComment_longest List.prefix_rfl h).length_le

theorem CodeScan.depthOf_shift (shift : Nat) (entries : List (Nat × Char)) :
    depthOf (entries.map fun entry => (shift + entry.1, entry.2)) = depthOf entries := by
  induction entries with
  | nil => rfl
  | cons entry entries ih => rw [List.map_cons, depthOf, depthOf, ih]

theorem parenDepth_of_newline {a : List Char} (h : ¬EndsInLiteral a) (b : List Char) :
    parenDepth (a ++ '\n' :: b) = parenDepth a + parenDepth b := by
  rw [parenDepth_eq, parenDepth_eq, parenDepth_eq, codeChars_newline h, depthOf_append, depthOf,
    depthOf_shift]
  rw [show parenWeight '\n' = 0 from rfl, Int.zero_add]

/-- The scan of a text is that of the longer one as far as the text goes, and starts again behind a
newline outside string literals, where the depths add up. What is left of a line without its
comment is the longest part at its front with all semicolons in string literals, and has no
comment to lose. -/
theorem codeChars_cut (a b line : List Char) :
    (codeChars (a ++ b)).filter (fun entry => entry.1 < a.length) = codeChars a ∧
    (¬EndsInLiteral a →
      codeChars (a ++ '\n' :: b) =
        codeChars a ++ (a.length, '\n') ::
          (codeChars b).map (fun entry => (a.length + 1 + entry.1, entry.2)) ∧
      parenDepth (a ++ '\n' :: b) = parenDepth a + parenDepth b) ∧
    (stripComment line <+: line ∧ HasNoComment (stripComment line) ∧
      ∀ part, part <+: line → HasNoComment part → part <+: stripComment line) ∧
    stripComment (stripComment line) = stripComment line := by
  refine ⟨filter_codeChars_append a b, ?_, ?_, ?_⟩
  · exact fun hends => ⟨codeChars_newline hends b, parenDepth_of_newline hends b⟩
  · exact ⟨stripComment_isPrefix line, hasNoComment_stripComment line,
      fun part hpart hnone => stripComment_longest hpart hnone⟩
  · exact stripComment_of_hasNoComment (hasNoComment_stripComment line)

/-- A double quote inside a token opens no string, so the newline is in none and the parentheses
add up; the semicolon in the string behind it is kept. -/
theorem codeChars_cut_quoteInToken :
    let a := "((f \"(\" g\"".toList
    let line := "x\" \";\" y;z".toList
    ¬EndsInLiteral a ∧
    parenDepth (a ++ '\n' :: ") \"(\")".toList) = 2 + -2 ∧
    HasNoComment "x\" \";\"".toList ∧
    "x\" \";\"".toList <+: stripComment line ∧ stripComment line = "x\" \";\" y".toList := by
  intro a line
  have hends : ¬EndsInLiteral a := by decide +kernel
  have hnone : HasNoComment "x\" \";\"".toList := by
    rw [hasNoComment_iff]
    decide +kernel
  obtain ⟨-, hcut, ⟨-, -, hlongest⟩, -⟩ := codeChars_cut a ") \"(\")".toList line
  refine ⟨hends, ?_, hnone, hlongest _ (by decide +kernel) hnone, by decide +kernel⟩
  rw [(hcut hends).2]
  decide +kernel

end Lisplet
