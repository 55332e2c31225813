import Lisplet.Reader

/-!
Reading by recursive descent: an expression is an atom, an opening parenthesis and the elements
after it, or a quote mark and an expression; elements are a closing parenthesis, or an expression
and more elements. The reader with its stack gives the same reading at every place of every text.
-/

set_option autoImplicit false

namespace Lisplet

namespace Reading

def map (f : Value → Value) (r : Reading) : Reading := ⟨r.result.map f, r.cursor⟩

@[simp] theorem map_ok (f : Value → Value) (v : Value) (after : Cursor) :
    map f ⟨.ok v, after⟩ = ⟨.ok (f v), after⟩ := rfl

@[simp] theorem map_error (f : Value → Value) (fault : ReadFault) (after : Cursor) :
    map f ⟨.error fault, after⟩ = ⟨.error fault, after⟩ := rfl

theorem map_map (f g : Value → Value) (r : Reading) : (r.map f).map g = r.map (g ∘ f) := by
  rcases r with ⟨result, after⟩
  cases result <;> rfl

theorem map_id (r : Reading) : r.map id = r := by
  rcases r with ⟨result, after⟩
  cases result <;> rfl

def Shortens (cursor : Cursor) (r : Reading) : Prop :=
  ∀ v, r.result = .ok v → r.cursor.rest.length < cursor.rest.length

theorem shortens_error (cursor after : Cursor) (fault : ReadFault) :
    Shortens cursor ⟨.error fault, after⟩ := by
  intro v h
  cases h

theorem shortens_ok {cursor after : Cursor} (h : after.rest.length < cursor.rest.length)
    (v : Value) : Shortens cursor ⟨.ok v, after⟩ := fun _ _ => h

theorem Shortens.map {cursor : Cursor} {r : Reading} (h : Shortens cursor r)
    (f : Value → Value) : Shortens cursor (r.map f) := by
  rcases r with ⟨result, after⟩
  cases result with
  | error fault => exact shortens_error cursor after fault
  | ok v => exact shortens_ok (h v rfl) (f v)

theorem Shortens.of_le {cursor inner : Cursor} {r : Reading} (h : Shortens inner r)
    (hle : inner.rest.length ≤ cursor.rest.length) : Shortens cursor r :=
  fun v hv => Nat.lt_of_lt_of_le (h v hv) hle

end Reading

theorem Cursor.length_of_skipBlanks {cursor : Cursor} {c : Char} {rest : List Char}
    (h : cursor.skipBlanks.rest = c :: rest) : rest.length < cursor.rest.length := by
  have hle := cursor.length_skipBlanks_le
  rw [h, List.length_cons] at hle
  omega

theorem Reader.readAtom_shortens {cursor : Cursor} {c : Char} {rest : List Char}
    (h : cursor.skipBlanks.rest = c :: rest) (offset : Nat) :
    Reading.Shortens cursor (readAtom offset c rest) := by
  cases hatom : readAtom offset c rest with
  | mk result after =>
    cases result with
    | error fault => exact Reading.shortens_error cursor after fault
    | ok v =>
      have hle := Reader.length_readAtom hatom
      have hlt := Cursor.length_of_skipBlanks h
      exact Reading.shortens_ok (by omega) v

theorem Reader.readString_of_not_mem {text : List Char} (h : '"' ∉ text) (offset : Nat)
    (rest : List Char) :
    Reader.readString offset (text ++ '"' :: rest) =
      ⟨.ok (.string (String.ofList text)), ⟨offset + text.length + 2, rest⟩⟩ := by
  have hall : ∀ c ∈ text, (c != '"') = true := by
    intro c hc
    simp only [bne_iff_ne, ne_eq]
    rintro rfl
    exact h hc
  simp [readString, List.takeWhile_append_of_pos hall, List.dropWhile_append_of_pos hall]

namespace Descent

open Reading

-- The subtypes carry what the recursion of the elements on the place after an expression needs.
mutual

def expressionWithin (cursor : Cursor) : {r : Reading // r.Shortens cursor} :=
  match h : cursor.skipBlanks.rest with
  | [] =>
    ⟨⟨.error (.malformed .unexpectedEnd cursor.skipBlanks.offset), cursor.skipBlanks⟩,
      shortens_error _ _ _⟩
  | c :: rest =>
    have hrest : rest.length < cursor.rest.length := Cursor.length_of_skipBlanks h
    let next : Cursor := ⟨cursor.skipBlanks.offset + 1, rest⟩
    if c == '(' then
      let list := elementsWithin cursor.skipBlanks.offset next
      ⟨list.val, list.property.of_le (Nat.le_of_lt hrest)⟩
    else if c == '\'' then
      let quoted := expressionWithin next
      ⟨quoted.val.map Value.quotation, (quoted.property.of_le (Nat.le_of_lt hrest)).map _⟩
    else if c == ')' then
      ⟨⟨.error (.malformed .unexpectedCloseParen cursor.skipBlanks.offset), cursor.skipBlanks⟩,
        shortens_error _ _ _⟩
    else ⟨Reader.readAtom cursor.skipBlanks.offset c rest, Reader.readAtom_shortens h _⟩
termination_by (cursor.rest.length, 0)

def elementsWithin (start : Nat) (cursor : Cursor) : {r : Reading // r.Shortens cursor} :=
  match h : cursor.skipBlanks.rest with
  | [] =>
    ⟨⟨.error (.malformed .unterminatedList start), cursor.skipBlanks⟩, shortens_error _ _ _⟩
  | c :: rest =>
    if c == ')' then
      ⟨⟨.ok .nil, ⟨cursor.skipBlanks.offset + 1, rest⟩⟩,
        shortens_ok (Cursor.length_of_skipBlanks h) _⟩
    else
      match expressionWithin cursor with
      | ⟨⟨.error fault, after⟩, _⟩ => ⟨⟨.error fault, after⟩, shortens_error _ _ _⟩
      | ⟨⟨.ok head, after⟩, hhead⟩ =>
        have hafter : after.rest.length < cursor.rest.length := hhead head rfl
        let tail := elementsWithin start after
        ⟨tail.val.map (.pair head), (tail.property.of_le (Nat.le_of_lt hafter)).map _⟩
termination_by (cursor.rest.length, 1)

end

def expression (cursor : Cursor) : Reading := (expressionWithin cursor).val

/-- Reads the elements of the list that starts at `start`, up to its closing parenthesis. -/
def elements (start : Nat) (cursor : Cursor) : Reading := (elementsWithin start cursor).val

theorem expression_shortens (cursor : Cursor) : (expression cursor).Shortens cursor :=
  (expressionWithin cursor).property

theorem expression_eq (cursor : Cursor) :
    expression cursor =
      match cursor.skipBlanks.rest with
      | [] => ⟨.error (.malformed .unexpectedEnd cursor.skipBlanks.offset), cursor.skipBlanks⟩
      | c :: rest =>
        if c == '(' then
          elements cursor.skipBlanks.offset ⟨cursor.skipBlanks.offset + 1, rest⟩
        else if c == '\'' then
          (expression ⟨cursor.skipBlanks.offset + 1, rest⟩).map Value.quotation
        else if c == ')' then
          ⟨.error (.malformed .unexpectedCloseParen cursor.skipBlanks.offset), cursor.skipBlanks⟩
        else Reader.readAtom cursor.skipBlanks.offset c rest := by
  rw [expression, expressionWithin]
  split
  · rename_i h
    simp only [h]
  · rename_i c rest h
    simp only [h]
    split
    · rfl
    · split
      · rfl
      · split <;> rfl

theorem elements_eq (start : Nat) (cursor : Cursor) :
    elements start cursor =
      match cursor.skipBlanks.rest with
      | [] => ⟨.error (.malformed .unterminatedList start), cursor.skipBlanks⟩
      | c :: rest =>
        if c == ')' then ⟨.ok .nil, ⟨cursor.skipBlanks.offset + 1, rest⟩⟩
        else
          match expression cursor with
          | ⟨.error fault, after⟩ => ⟨.error fault, after⟩
          | ⟨.ok head, after⟩ => (elements start after).map (.pair head) := by
  rw [elements, elementsWithin]
  split
  · rename_i h
    simp only [h]
  · rename_i c rest h
    simp only [h]
    unfold expression
    split
    · rfl
    · rcases expressionWithin cursor with ⟨⟨result, after⟩, hhead⟩
      cases result <;> rfl

theorem expression_congr {a b : Cursor} (h : a.skipBlanks = b.skipBlanks) :
    expression a = expression b := by
  rw [expression_eq a, expression_eq b, h]

theorem elements_congr {a b : Cursor} (h : a.skipBlanks = b.skipBlanks) (start : Nat) :
    elements start a = elements start b := by
  rw [elements_eq start a, elements_eq start b, h, expression_congr h]

theorem skipBlanks_of_blank {c : Char} (h : Text.isBlank c = true) (offset : Nat)
    (rest : List Char) : (Cursor.mk offset (c :: rest)).skipBlanks =
      (Cursor.mk (offset + 1) rest).skipBlanks := by
  simp [Cursor.skipBlanks, h]
  omega

theorem skipBlanks_of_not_blank {c : Char} (h : Text.isBlank c = false) (offset : Nat)
    (rest : List Char) : (Cursor.mk offset (c :: rest)).skipBlanks = ⟨offset, c :: rest⟩ := by
  simp [Cursor.skipBlanks, h]

theorem elements_of_expression {cursor after : Cursor} {head : Value}
    (h : expression cursor = ⟨.ok head, after⟩) (start : Nat) :
    elements start cursor = (elements start after).map (.pair head) := by
  have hexpression := expression_eq cursor
  have helements := elements_eq start cursor
  rw [h] at hexpression helements
  cases hrest : cursor.skipBlanks.rest with
  | nil =>
    simp only [hrest] at hexpression
    cases hexpression
  | cons c rest =>
    simp only [hrest] at hexpression helements
    by_cases hc : c = ')'
    · subst hc
      simp at hexpression
    · simpa [hc] using helements

theorem expression_open (offset : Nat) (rest : List Char) :
    expression ⟨offset, '(' :: rest⟩ = elements offset ⟨offset + 1, rest⟩ := by
  have hblank : Text.isBlank '(' = false := by decide
  rw [expression_eq, skipBlanks_of_not_blank hblank]
  rfl

theorem elements_close (start offset : Nat) (rest : List Char) :
    elements start ⟨offset, ')' :: rest⟩ = ⟨.ok .nil, ⟨offset + 1, rest⟩⟩ := by
  have hblank : Text.isBlank ')' = false := by decide
  rw [elements_eq, skipBlanks_of_not_blank hblank]
  rfl

theorem elements_blank {c : Char} (h : Text.isBlank c = true) (start offset : Nat)
    (rest : List Char) : elements start ⟨offset, c :: rest⟩ = elements start ⟨offset + 1, rest⟩ :=
  elements_congr (skipBlanks_of_blank h offset rest) start

theorem expression_string {text : List Char} (h : '"' ∉ text) (offset : Nat)
    (rest : List Char) :
    expression ⟨offset, '"' :: (text ++ '"' :: rest)⟩ =
      ⟨.ok (.string (String.ofList text)), ⟨offset + text.length + 2, rest⟩⟩ := by
  have hblank : Text.isBlank '"' = false := by decide
  rw [expression_eq, skipBlanks_of_not_blank hblank]
  exact Reader.readString_of_not_mem h offset rest

/-- A token ends where a delimiter or the end of the text follows. -/
def Delimited (rest : List Char) : Prop := ∀ c ∈ rest.head?, Text.isDelimiter c = true

theorem expression_token {c : Char} {tail rest : List Char}
    (hall : ∀ d ∈ c :: tail, Text.isDelimiter d = false) (hstring : c ≠ '"')
    (hquote : c ≠ '\'') (hrest : Delimited rest) (offset : Nat) :
    expression ⟨offset, c :: (tail ++ rest)⟩ =
      ⟨(Reader.tokenValue c tail).mapError .numeral, ⟨offset + 1 + tail.length, rest⟩⟩ := by
  have hc := hall c (by simp)
  have hblank : Text.isBlank c = false := by
    simp only [Text.isDelimiter, Bool.or_eq_false_iff] at hc
    exact hc.1.1
  have hopen : c ≠ '(' := by
    rintro rfl
    exact absurd hc (by decide)
  have hclose : c ≠ ')' := by
    rintro rfl
    exact absurd hc (by decide)
  have htail : ∀ d ∈ tail, (!Text.isDelimiter d) = true := by
    intro d hd
    simp [hall d (by simp [hd])]
  have hafter : rest.takeWhile (fun d => !Text.isDelimiter d) = [] ∧
      rest.dropWhile (fun d => !Text.isDelimiter d) = rest := by
    cases rest with
    | nil => simp
    | cons d rest =>
      have hd := hrest d (by simp)
      simp [hd]
  rw [expression_eq, skipBlanks_of_not_blank hblank]
  simp [hopen, hquote, hclose, hstring, Reader.readAtom, Reader.readToken, Reader.tokenTail,
    Reader.afterToken, List.takeWhile_append_of_pos htail, List.dropWhile_append_of_pos htail,
    hafter]

/-- What the lists and quotes on a stack make of the reading of the expression they wait for. -/
def resume : List Reader.Pending → Reading → Reading
  | [], r => r
  | .quote :: pending, r => resume pending (r.map Value.quotation)
  | .list start items :: pending, ⟨.ok v, after⟩ =>
    resume pending ((elements start after).map (Value.ofList (v :: items).reverse))
  | .list _ _ :: pending, ⟨.error fault, after⟩ => resume pending ⟨.error fault, after⟩

/-- The reading that recursive descent gives from here, with these lists and quotes still open. -/
def descend : List Reader.Pending → Cursor → Reading
  | [], cursor => expression cursor
  | .quote :: pending, cursor => resume pending ((expression cursor).map Value.quotation)
  | .list start items :: pending, cursor =>
    resume pending ((elements start cursor).map (Value.ofList items.reverse))

@[simp] theorem resume_error (pending : List Reader.Pending) (fault : ReadFault)
    (after : Cursor) : resume pending ⟨.error fault, after⟩ = ⟨.error fault, after⟩ := by
  induction pending with
  | nil => rfl
  | cons p pending ih =>
    cases p with
    | list start items => exact ih
    | quote => exact ih

theorem ofList_reverse_cons (v : Value) (items : List Value) :
    Value.ofList (v :: items).reverse = Value.ofList items.reverse ∘ Value.pair v := by
  funext tail
  simp [Value.ofList]

theorem descend_eq_resume {cursor : Cursor} {c : Char} {rest : List Char}
    (h : cursor.skipBlanks.rest = c :: rest) (hc : c ≠ ')') (pending : List Reader.Pending) :
    descend pending cursor = resume pending (expression cursor) := by
  cases pending with
  | nil => rfl
  | cons p pending =>
    cases p with
    | quote => rfl
    | list start items =>
      have helements := elements_eq start cursor
      simp only [h, beq_iff_eq, hc, ↓reduceIte] at helements
      rw [descend, helements]
      rcases expression cursor with ⟨result, after⟩
      cases result with
      | error fault => simp
      | ok head => simp only [resume, map_map, ofList_reverse_cons]

def outcome : Reader.Step → Reading
  | .stop reading => reading
  | .more pending cursor => descend pending cursor

theorem outcome_supply (v : Value) (after : Cursor) (pending : List Reader.Pending) :
    outcome (Reader.supply v after pending) = resume pending ⟨.ok v, after⟩ := by
  induction pending generalizing v with
  | nil => rfl
  | cons p pending ih =>
    cases p with
    | list start items => rfl
    | quote => exact ih v.quotation

theorem outcome_supplyAtom (pending : List Reader.Pending) (r : Reading) :
    outcome (Reader.supplyAtom pending r) = resume pending r := by
  rcases r with ⟨result, after⟩
  cases result with
  | ok v => exact outcome_supply v after pending
  | error fault => exact (resume_error pending fault after).symm

theorem outcome_missing {cursor : Cursor} (h : cursor.skipBlanks.rest = [])
    (pending : List Reader.Pending) :
    descend pending cursor =
      ⟨.error (Reader.missing cursor.skipBlanks.offset pending), cursor.skipBlanks⟩ := by
  have hexpression := expression_eq cursor
  simp only [h] at hexpression
  cases pending with
  | nil => exact hexpression
  | cons p pending =>
    cases p with
    | quote =>
      rw [descend, hexpression, map_error, resume_error]
      rfl
    | list start items =>
      have helements := elements_eq start cursor
      simp only [h] at helements
      rw [descend, helements, map_error, resume_error]
      rfl

theorem outcome_closeList {cursor : Cursor} {rest : List Char}
    (h : cursor.skipBlanks.rest = ')' :: rest) (pending : List Reader.Pending) :
    outcome (Reader.closeList cursor.skipBlanks rest pending) = descend pending cursor := by
  have hexpression := expression_eq cursor
  simp [h] at hexpression
  cases pending with
  | nil => exact hexpression.symm
  | cons p pending =>
    cases p with
    | quote =>
      rw [descend, hexpression, map_error, resume_error]
      rfl
    | list start items =>
      have helements := elements_eq start cursor
      simp [h] at helements
      rw [descend, helements, map_ok]
      exact outcome_supply _ _ _

/-- A step of the reader leaves what recursive descent gives as it is. -/
theorem outcome_step (pending : List Reader.Pending) (cursor : Cursor) :
    outcome (Reader.step pending cursor) = descend pending cursor := by
  have hexpression := expression_eq cursor
  cases h : cursor.skipBlanks.rest with
  | nil => simp only [Reader.step, h, outcome, outcome_missing h]
  | cons c rest =>
    simp only [Reader.step, h, Reader.take]
    simp only [h] at hexpression
    by_cases hclose : c = ')'
    · subst hclose
      simpa using outcome_closeList h pending
    rw [descend_eq_resume h hclose, hexpression]
    by_cases hopen : c = '('
    · subst hopen
      have hid : Value.ofList [] = id := rfl
      simp [outcome, descend, hid, map_id]
    by_cases hquote : c = '\''
    · subst hquote
      simp [outcome, descend]
    · simp [hopen, hquote, hclose, outcome_supplyAtom]

theorem readFrom_eq_descend (pending : List Reader.Pending) (cursor : Cursor) :
    Reader.readFrom pending cursor = descend pending cursor := by
  fun_induction Reader.readFrom pending cursor with
  | case1 pending cursor reading hstep => rw [← outcome_step pending cursor, hstep, outcome]
  | case2 pending cursor pending' cursor' hstep ih =>
    rw [ih, ← outcome_step pending cursor, hstep, outcome]

/-- At every place of every text the reader gives the value, or the fault with its position, and
the place where it stopped, that recursive descent gives. -/
theorem read_eq_expression (cursor : Cursor) : cursor.read = expression cursor :=
  readFrom_eq_descend [] cursor

end Descent

end Lisplet
