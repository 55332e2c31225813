import Lisplet.Proofs.Passage

/-!
Wrong text and incomplete text. A parenthesis that closes nothing stays wrong whatever follows; a
text that ends inside a list, inside a string or before an expression can be completed; an
expression that was read stays as it is, unless its last token runs on into what follows.
-/

set_option autoImplicit false

namespace Lisplet

namespace Reader

def closers (pending : List Pending) : List Char := List.replicate (openLists pending) ')'

theorem resume_closers (pending : List Pending) (v : Value) (offset : Nat) :
    ∃ w after, Descent.resume pending ⟨.ok v, ⟨offset, closers pending⟩⟩ = ⟨.ok w, after⟩ := by
  induction pending generalizing v offset with
  | nil => exact ⟨v, _, rfl⟩
  | cons p pending ih =>
    cases p with
    | quote => exact ih v.quotation offset
    | list start items =>
      have hclosers : closers (.list start items :: pending) = ')' :: closers pending :=
        List.replicate_succ
      rw [hclosers, Descent.resume, Descent.elements_close]
      exact ih _ (offset + 1)

theorem readFrom_of_expression {cursor : Cursor} {pending : List Pending} {v : Value}
    {offset : Nat} (h : Descent.expression cursor = ⟨.ok v, ⟨offset, closers pending⟩⟩) :
    ∃ w after, readFrom pending cursor = ⟨.ok w, after⟩ := by
  have hexpression := Descent.expression_eq cursor
  rw [h] at hexpression
  rw [Descent.readFrom_eq_descend]
  cases hrest : cursor.skipBlanks.rest with
  | nil =>
    simp only [hrest] at hexpression
    cases hexpression
  | cons c rest =>
    have hclose : c ≠ ')' := by
      rintro rfl
      simp [hrest] at hexpression
    rw [Descent.descend_eq_resume hrest hclose, h]
    exact resume_closers pending v offset

theorem completion_of_isEarlyEnd {pending : List Pending} {cursor place : Cursor}
    {fault : ReadFault} (hstep : step pending cursor = .stop ⟨.error fault, place⟩)
    (hearly : fault.isEarlyEnd = true) :
    ∃ more, (cursor.rest = [] → Descent.Delimited more) ∧
      ∃ v after, readFrom pending (cursor.append more) = ⟨.ok v, after⟩ := by
  rcases (takes_step pending cursor).of_isEarlyEnd hstep hearly with hrest | ⟨rest, hrest, hmem⟩
  · -- An empty list takes the place of the expression that is missing.
    have hlist : Descent.expression (cursor.append ('(' :: ')' :: closers pending)) =
        ⟨.ok .nil, ⟨cursor.offset + cursor.rest.length + 1 + 1, closers pending⟩⟩ := by
      rw [Descent.expression_congr (Cursor.skipBlanks_append_of_nil hrest _),
        Descent.expression_open, Descent.elements_close]
    exact ⟨_, fun _ => by simp [Descent.Delimited, Text.isDelimiter],
      readFrom_of_expression hlist⟩
  · -- The string is closed first; its opening quote stands before the end of the text.
    have hne : cursor.rest ≠ [] := by
      intro hnil
      simp [Cursor.skipBlanks, hnil] at hrest
    have hstring : Descent.expression (cursor.append ('"' :: closers pending)) =
        ⟨.ok (.string (String.ofList rest)),
          ⟨cursor.skipBlanks.offset + rest.length + 2, closers pending⟩⟩ := by
      rw [Descent.expression_eq, Cursor.skipBlanks_append hrest, Cursor.append, hrest]
      exact readString_of_not_mem hmem _ _
    exact ⟨_, fun hnil => absurd hnil hne, readFrom_of_expression hstring⟩

theorem halted_of_readFrom {pending : List Pending} {cursor place : Cursor} {fault : ReadFault}
    (h : readFrom pending cursor = ⟨.error fault, place⟩) :
    ∃ last, Halted last (some fault) place := by
  obtain ⟨last, stop, -, hstop⟩ := readFrom_leads pending cursor
  rw [h] at hstop
  exact ⟨last, (takes_step last stop).halted hstop⟩

end Reader

open Reader

theorem Reader.Halted.rest_of_unexpectedCloseParen {pending : List Pending} {position : Nat}
    {place : Cursor} {fault : Option ReadFault} (h : Halted pending fault place)
    (hfault : fault = some (.malformed .unexpectedCloseParen position)) : place.rest ≠ [] := by
  cases h with
  | missing pending offset =>
    rcases missing_eq pending offset with hmissing | ⟨start, hmissing, -⟩ <;>
      simp [hmissing] at hfault
  | close pending offset rest => exact List.cons_ne_nil _ _
  | _ => cases hfault

theorem Cursor.read_longer_of_closeParen {text : List Char} {position : Nat} {place : Cursor}
    (h : (Cursor.ofText text).read = ⟨.error (.malformed .unexpectedCloseParen position), place⟩)
    (more : List Char) :
    (Cursor.ofText (text ++ more)).read =
      ⟨.error (.malformed .unexpectedCloseParen position), place.append more⟩ := by
  obtain ⟨last, hhalted⟩ := halted_of_readFrom h
  have hrest := hhalted.rest_of_unexpectedCloseParen rfl
  have hsettled : (Cursor.ofText text).read.Settled := h ▸ Reading.settled_error rfl place
  refine (readFrom_longer (fun hnil => absurd hnil ?_) hsettled).trans ?_
  · rwa [show readFrom [] (Cursor.ofText text) = _ from h]
  · rw [show readFrom [] (Cursor.ofText text) = _ from h]
    rfl

theorem Cursor.read_completion {text : List Char} {fault : ReadFault} {place : Cursor}
    (h : (Cursor.ofText text).read = ⟨.error fault, place⟩) (hearly : fault.isEarlyEnd = true) :
    ∃ more v after, (Cursor.ofText (text ++ more)).read = ⟨.ok v, after⟩ := by
  obtain ⟨last, cursor, hleads, hstop⟩ := readFrom_leads [] (Cursor.ofText text)
  rw [show readFrom [] (Cursor.ofText text) = _ from h] at hstop
  obtain ⟨more, hdelimited, v, after, hread⟩ := completion_of_isEarlyEnd hstop hearly
  exact ⟨more, v, after, (hleads.append hdelimited).readFrom_eq.trans hread⟩

theorem Cursor.read_longer_of_ok {text more : List Char} {v : Value} {after : Cursor}
    (h : (Cursor.ofText text).read = ⟨.ok v, after⟩)
    (hmore : after.offset = text.length → EndsInToken [] (Cursor.ofText text) →
      Descent.Delimited more) :
    (Cursor.ofText (text ++ more)).read = ⟨.ok v, after.append more⟩ := by
  have hend : after.offset + after.rest.length = 0 + text.length := (read_reaches h).end_eq
  have hread : readFrom [] (Cursor.ofText text) = ⟨.ok v, after⟩ := h
  have hnone : (readFrom [] (Cursor.ofText text)).cursor.rest = [] →
      after.offset = text.length := by
    intro hnil
    rw [show after.rest = [] by rwa [hread] at hnil, List.length_nil] at hend
    omega
  refine (readFrom_longer (fun hnil => hmore (hnone hnil)) ?_).trans (by rw [hread]; rfl)
  exact hread ▸ Reading.settled_ok v after

/-- A closing parenthesis too many is reported at the same place whatever follows; a text that
ends too early is the beginning of one that can be read; and what was read stays what it is,
unless the text ends with a symbol or a number and more of it follows. -/
theorem readings_of_longer_texts (text : List Char) :
    (∀ position place, (Cursor.ofText text).read =
        ⟨.error (.malformed .unexpectedCloseParen position), place⟩ →
      ∀ more, ∃ place', (Cursor.ofText (text ++ more)).read =
        ⟨.error (.malformed .unexpectedCloseParen position), place'⟩) ∧
    (∀ sentinel ∈ [Sentinel.unterminatedList, .unexpectedEnd, .unterminatedString],
      ∀ position place, (Cursor.ofText text).read =
        ⟨.error (.malformed sentinel position), place⟩ →
      ∃ more v after, (Cursor.ofText (text ++ more)).read = ⟨.ok v, after⟩) ∧
    ∀ v after, (Cursor.ofText text).read = ⟨.ok v, after⟩ →
      ∀ more, (after.offset = text.length → EndsInToken [] (Cursor.ofText text) →
        Descent.Delimited more) →
      ∃ after', (Cursor.ofText (text ++ more)).read = ⟨.ok v, after'⟩ ∧
        after'.offset = after.offset := by
  refine ⟨fun position place h more => ?close, fun sentinel hsentinel position place h => ?early,
    fun v after h more hmore => ?value⟩
  case close => exact ⟨_, Cursor.read_longer_of_closeParen h more⟩
  case early =>
    have hearly : (ReadFault.malformed sentinel position).isEarlyEnd = true := by
      simp only [List.mem_cons, List.not_mem_nil, or_false] at hsentinel
      rcases hsentinel with rfl | rfl | rfl <;> rfl
    exact Cursor.read_completion h hearly
  case value => exact ⟨_, Cursor.read_longer_of_ok h hmore, rfl⟩

theorem readings_of_longer_texts_oneEach :
    (∀ more, ∃ place, (Cursor.ofText (" )".toList ++ more)).read =
      ⟨.error (.malformed .unexpectedCloseParen 1), place⟩) ∧
    (∃ more v after, (Cursor.ofText ("(f \"a".toList ++ more)).read = ⟨.ok v, after⟩) ∧
    ∃ after, (Cursor.ofText ("'a".toList ++ " (".toList)).read =
      ⟨.ok (Value.symbol "a").quotation, after⟩ ∧ after.offset = 2 := by
  have hclose : (Cursor.ofText " )".toList).read =
      ⟨.error (.malformed .unexpectedCloseParen 1), ⟨1, [')']⟩⟩ := by cbv
  have hstring : (Cursor.ofText "(f \"a".toList).read =
      ⟨.error (.malformed .unterminatedString 3), ⟨3, ['"', 'a']⟩⟩ := by cbv
  have hquoted : (Cursor.ofText "'a".toList).read =
      ⟨.ok (Value.symbol "a").quotation, ⟨2, []⟩⟩ := by cbv
  refine ⟨(readings_of_longer_texts " )".toList).1 1 _ hclose,
    (readings_of_longer_texts "(f \"a".toList).2.1 _ (by decide) 3 _ hstring,
    (readings_of_longer_texts "'a".toList).2.2 _ _ hquoted _ fun _ _ => ?_⟩
  simp [Descent.Delimited, Text.isDelimiter, Text.isBlank]

end Lisplet
