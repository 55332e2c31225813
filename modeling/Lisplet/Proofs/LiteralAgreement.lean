import Lisplet.Proofs.SessionRun
import Lisplet.Proofs.Trace

/-!
The scan for code and the reader agree: what the scan leaves out are the string literals that were
read, and the depth it counts is the number of lists that are open where reading stopped.
-/

set_option autoImplicit false

namespace Lisplet

open CodeScan

namespace CodeScan

theorem codeFrom_cons (place : Place) (offset : Nat) (c : Char) (rest : List Char) :
    codeFrom [] place offset (c :: rest) =
      (if place.isCode c then [(offset, c)] else []) ++
        codeFrom [] (place.next c) (offset + 1) rest := by
  rw [codeFrom, codeFrom_eq]
  split <;> rfl

theorem le_of_mem_codeFrom {place : Place} {offset i : Nat} {text : List Char}
    (h : i ∈ (codeFrom [] place offset text).map Prod.fst) : offset ≤ i := by
  induction text generalizing place offset with
  | nil => cases h
  | cons c rest ih =>
    rw [codeFrom_cons, List.map_append, List.mem_append] at h
    rcases h with h | h
    · split at h
      · simp at h
        omega
      · cases h
    · have hle := ih h
      omega

def numbered (offset : Nat) : List Char → List (Nat × Char)
  | [] => []
  | c :: rest => (offset, c) :: numbered (offset + 1) rest

theorem numbered_fst (offset : Nat) (text : List Char) :
    (numbered offset text).map Prod.fst = List.range' offset text.length := by
  induction text generalizing offset with
  | nil => rfl
  | cons c rest ih => simp [numbered, List.range'_succ, ih]

def depthOf : List (Nat × Char) → Int
  | [] => 0
  | entry :: rest => parenWeight entry.2 + depthOf rest

@[simp] theorem depthOf_append (a b : List (Nat × Char)) :
    depthOf (a ++ b) = depthOf a + depthOf b := by
  induction a with
  | nil => simp [depthOf]
  | cons entry a ih => simp [depthOf, ih, Int.add_assoc]

theorem depthOf_numbered {text : List Char} (h : ∀ c ∈ text, parenWeight c = 0)
    (offset : Nat) : depthOf (numbered offset text) = 0 := by
  induction text generalizing offset with
  | nil => rfl
  | cons c rest ih =>
    have hc := h c (by simp)
    have hrest := ih (fun d hd => h d (by simp [hd])) (offset + 1)
    rw [numbered, depthOf, hc, hrest, Int.zero_add]

theorem parenDepth_eq (text : List Char) : parenDepth text = depthOf (codeChars text) := by
  have hfold : ∀ (entries : List (Nat × Char)) (depth : Int),
      entries.foldl (fun depth entry => depth + parenWeight entry.2) depth =
        depth + depthOf entries := by
    intro entries
    induction entries with
    | nil => simp [depthOf]
    | cons entry entries ih =>
      intro depth
      rw [List.foldl_cons, ih, depthOf, Int.add_assoc]
  rw [parenDepth, hfold, Int.zero_add]

theorem codeFrom_blanks {blanks : List Char} (h : ∀ c ∈ blanks, Text.isBlank c = true)
    (offset : Nat) (rest : List Char) :
    codeFrom [] .boundary offset (blanks ++ rest) =
      numbered offset blanks ++ codeFrom [] .boundary (offset + blanks.length) rest := by
  induction blanks generalizing offset with
  | nil => rfl
  | cons c blanks ih =>
    have hblank := h c (by simp)
    have hquote : c ≠ '"' := by
      rintro rfl
      exact absurd hblank (by decide)
    have hnext : Place.boundary.next c = .boundary := by
      simp [Place.next, hquote, Text.isDelimiter_of_isBlank hblank]
    have hcode : Place.boundary.isCode c = true := by simp [Place.isCode, hquote]
    rw [List.cons_append, codeFrom_cons, hnext, ih (fun d hd => h d (by simp [hd])), hcode,
      List.length_cons, Nat.add_right_comm, Nat.add_assoc]
    rfl

theorem codeFrom_delimited {rest : List Char} (h : Descent.Delimited rest) (offset : Nat) :
    codeFrom [] .token offset rest = codeFrom [] .boundary offset rest := by
  cases rest with
  | nil => rfl
  | cons c rest =>
    have hdelimiter : Text.isDelimiter c = true := h c (by simp)
    have hquote : c ≠ '"' := by
      rintro rfl
      exact absurd hdelimiter (by decide)
    rw [codeFrom_cons, codeFrom_cons]
    simp [Place.next, Place.isCode, hdelimiter, hquote]

theorem codeFrom_tail {tail rest : List Char} (hall : ∀ c ∈ tail, Text.isDelimiter c = false)
    (hrest : Descent.Delimited rest) (offset : Nat) :
    codeFrom [] .token offset (tail ++ rest) =
      numbered offset tail ++ codeFrom [] .boundary (offset + tail.length) rest := by
  induction tail generalizing offset with
  | nil => exact codeFrom_delimited hrest offset
  | cons c tail ih =>
    have hc := hall c (by simp)
    have hnext : Place.token.next c = .token := by simp [Place.next, hc]
    rw [List.cons_append, codeFrom_cons, hnext, ih (fun d hd => hall d (by simp [hd])),
      List.length_cons, Nat.add_right_comm, Nat.add_assoc]
    rfl

theorem codeFrom_token {c : Char} {tail rest : List Char}
    (hall : ∀ d ∈ c :: tail, Text.isDelimiter d = false) (hstring : c ≠ '"')
    (hquote : c ≠ '\'') (hrest : Descent.Delimited rest) (offset : Nat) :
    codeFrom [] .boundary offset (c :: (tail ++ rest)) =
      numbered offset (c :: tail) ++
        codeFrom [] .boundary (offset + (c :: tail).length) rest := by
  have hc := hall c (by simp)
  have hnext : Place.boundary.next c = .token := by simp [Place.next, hc, hstring, hquote]
  have hcode : Place.boundary.isCode c = true := by simp [Place.isCode, hstring]
  have htail : ∀ d ∈ tail, Text.isDelimiter d = false := fun d hd => hall d (by simp [hd])
  rw [codeFrom_cons, hnext, hcode, codeFrom_tail htail hrest, List.length_cons,
    Nat.add_right_comm, Nat.add_assoc]
  rfl

theorem codeFrom_text {text : List Char} (h : '"' ∉ text) (offset : Nat) (rest : List Char) :
    codeFrom [] .string offset (text ++ rest) =
      codeFrom [] .string (offset + text.length) rest := by
  induction text generalizing offset with
  | nil => rfl
  | cons c text ih =>
    simp only [List.mem_cons, not_or] at h
    have hc : c ≠ '"' := fun heq => h.1 heq.symm
    have hnext : Place.string.next c = .string := by simp [Place.next, hc]
    rw [List.cons_append, codeFrom_cons, hnext, ih h.2, List.length_cons, Nat.add_right_comm,
      Nat.add_assoc]
    rfl

theorem codeFrom_string {text : List Char} (h : '"' ∉ text) (offset : Nat)
    (rest : List Char) :
    codeFrom [] .boundary offset ('"' :: (text ++ '"' :: rest)) =
      codeFrom [] .boundary (offset + text.length + 2) rest := by
  rw [codeFrom_cons, show Place.boundary.next '"' = .string from rfl, codeFrom_text h,
    codeFrom_cons, show Place.string.next '"' = .boundary from rfl, Nat.add_right_comm offset]
  rfl

theorem codeFrom_unclosed {rest : List Char} (h : '"' ∉ rest) (offset : Nat) :
    codeFrom [] .boundary offset ('"' :: rest) = [] := by
  have hrest := codeFrom_text h (offset + 1) []
  rw [List.append_nil] at hrest
  rw [codeFrom_cons, show Place.boundary.next '"' = .string from rfl, hrest]
  rfl

end CodeScan

def Cursor.code (cursor : Cursor) : List (Nat × Char) :=
  codeFrom [] .boundary cursor.offset cursor.rest

/-- Between two places the scan leaves out exactly these literals, and the depth grows by so
much. -/
structure Stretch (literals : List Literal) (depth : Int) (a b : Cursor) : Prop where
  le : a.offset ≤ b.offset
  within : ∀ literal ∈ literals, a.offset ≤ literal.start ∧ literal.stop ≤ b.offset
  code : ∃ found, a.code = found ++ b.code ∧ depthOf found = depth ∧
    ∀ i, i ∈ found.map Prod.fst ↔
      (a.offset ≤ i ∧ i < b.offset) ∧ ∀ literal ∈ literals, ¬literal.Covers i

namespace Stretch

theorem refl (a : Cursor) : Stretch [] 0 a a where
  le := Nat.le_refl _
  within := by simp
  code := by
    refine ⟨[], rfl, rfl, fun i => ?_⟩
    simp only [List.map_nil, List.not_mem_nil, false_iff]
    omega

theorem not_covers_of_lt {literals : List Literal} {depth : Int} {a b : Cursor} {i : Nat}
    (h : Stretch literals depth a b) (hi : i < a.offset) :
    ∀ literal ∈ literals, ¬literal.Covers i := by
  intro literal hmem hcover
  have hwithin := h.within literal hmem
  unfold Literal.Covers at hcover
  omega

theorem not_covers_of_le {literals : List Literal} {depth : Int} {a b : Cursor} {i : Nat}
    (h : Stretch literals depth a b) (hi : b.offset ≤ i) :
    ∀ literal ∈ literals, ¬literal.Covers i := by
  intro literal hmem hcover
  have hwithin := h.within literal hmem
  unfold Literal.Covers at hcover
  omega

theorem trans {literals more : List Literal} {depth gain : Int} {a b c : Cursor}
    (hab : Stretch literals depth a b) (hbc : Stretch more gain b c) :
    Stretch (literals ++ more) (depth + gain) a c := by
  obtain ⟨found, hfound, hdepth, hcovers⟩ := hab.code
  obtain ⟨later, hlater, hgain, hmore⟩ := hbc.code
  have hle := hab.le
  have hle' := hbc.le
  refine ⟨Nat.le_trans hle hle', ?_, found ++ later, ?_, ?_, ?_⟩
  · intro literal hmem
    rcases List.mem_append.mp hmem with hmem | hmem
    · have hwithin := hab.within literal hmem
      omega
    · have hwithin := hbc.within literal hmem
      omega
  · rw [hfound, hlater, List.append_assoc]
  · rw [depthOf_append, hdepth, hgain]
  · intro i
    rw [List.map_append, List.mem_append, hcovers, hmore, List.forall_mem_append]
    constructor
    · rintro (⟨hi, hnone⟩ | ⟨hi, hnone⟩)
      · exact ⟨by omega, hnone, hbc.not_covers_of_lt hi.2⟩
      · exact ⟨by omega, hab.not_covers_of_le hi.1, hnone⟩
    · rintro ⟨hi, hleft, hright⟩
      by_cases hb : i < b.offset
      · exact .inl ⟨⟨hi.1, hb⟩, hleft⟩
      · exact .inr ⟨⟨by omega, hi.2⟩, hright⟩

theorem trans_of_depth {literals more : List Literal} {x y z : Int} {a b c : Cursor}
    (hab : Stretch literals (y - x) a b) (hbc : Stretch more (z - y) b c) :
    Stretch (literals ++ more) (z - x) a c := by
  have hdepth : y - x + (z - y) = z - x := by omega
  rw [← hdepth]
  exact hab.trans hbc

theorem of_chars {part rest : List Char} {offset : Nat} {depth : Int}
    (h : codeFrom [] .boundary offset (part ++ rest) =
      numbered offset part ++ codeFrom [] .boundary (offset + part.length) rest)
    (hdepth : depthOf (numbered offset part) = depth) :
    Stretch [] depth ⟨offset, part ++ rest⟩ ⟨offset + part.length, rest⟩ where
  le := Nat.le_add_right _ _
  within := by simp
  code := by
    refine ⟨numbered offset part, h, hdepth, fun i => ?_⟩
    rw [numbered_fst, List.mem_range'_1]
    simp

theorem of_string {text : List Char} (h : '"' ∉ text) (offset : Nat) (rest : List Char) :
    Stretch [⟨offset, offset + text.length + 2⟩] 0 ⟨offset, '"' :: (text ++ '"' :: rest)⟩
      ⟨offset + text.length + 2, rest⟩ where
  le := by
    change offset ≤ offset + text.length + 2
    omega
  within := by simp
  code := by
    refine ⟨[], codeFrom_string h offset rest, rfl, fun i => ?_⟩
    simp [Literal.Covers]

theorem parenWeight_of_class {p : Char → Bool} {value : Bool} (hopen : p '(' ≠ value)
    (hclose : p ')' ≠ value) {c : Char} (h : p c = value) : parenWeight c = 0 := by
  have hc : c ≠ '(' := by
    rintro rfl
    exact hopen h
  have hc' : c ≠ ')' := by
    rintro rfl
    exact hclose h
  simp [parenWeight, hc, hc']

theorem of_skipBlanks (cursor : Cursor) : Stretch [] 0 cursor cursor.skipBlanks := by
  have hblanks : ∀ c ∈ cursor.rest.takeWhile Text.isBlank, Text.isBlank c = true :=
    fun c hc => List.mem_takeWhile_imp hc
  have hdepth := depthOf_numbered
    (fun c hc => parenWeight_of_class (by decide) (by decide) (hblanks c hc)) cursor.offset
  have hstretch := of_chars
    (codeFrom_blanks hblanks cursor.offset (cursor.rest.dropWhile Text.isBlank)) hdepth
  rwa [List.takeWhile_append_dropWhile] at hstretch

theorem of_token {c : Char} {tail rest : List Char}
    (hall : ∀ d ∈ c :: tail, Text.isDelimiter d = false) (hstring : c ≠ '"')
    (hquote : c ≠ '\'') (hrest : Descent.Delimited rest) (offset : Nat) :
    Stretch [] 0 ⟨offset, c :: (tail ++ rest)⟩ ⟨offset + 1 + tail.length, rest⟩ := by
  have hdepth := depthOf_numbered
    (fun d hd => parenWeight_of_class (by decide) (by decide) (hall d hd)) offset
  have hstretch := of_chars (codeFrom_token hall hstring hquote hrest offset) hdepth
  have hlength : offset + (c :: tail).length = offset + 1 + tail.length := by
    rw [List.length_cons]
    omega
  rwa [hlength] at hstretch

theorem of_mark {c : Char} (h : c = '(' ∨ c = ')' ∨ c = '\'') (offset : Nat)
    (rest : List Char) :
    Stretch [] (parenWeight c) ⟨offset, c :: rest⟩ ⟨offset + 1, rest⟩ := by
  refine @of_chars [c] rest offset _ ?_ ?_
  · rcases h with rfl | rfl | rfl <;> exact codeFrom_cons _ _ _ _
  · simp [depthOf, numbered]

end Stretch

namespace Reader

/-- What is open after a step; a failed step leaves open what was open before it. -/
def Step.left (pending : List Pending) : Step → List Pending
  | .stop ⟨.ok _, _⟩ => []
  | .stop ⟨.error _, _⟩ => pending
  | .more pending' _ => pending'

theorem openLists_supply (v : Value) (after : Cursor) (pending outer : List Pending) :
    openLists ((supply v after outer).left pending) = openLists outer := by
  rcases supply_cases v after outer with ⟨w, h, hnone⟩ | ⟨start, items, rest, h, hsome⟩
  · rw [h, hnone]
    rfl
  · rw [h, hsome]
    rfl

theorem literal?_eq_none {c : Char} (h : c ≠ '"') (offset : Nat) (rest : List Char) :
    literal? ⟨offset, c :: rest⟩ = none := by
  unfold literal?
  split
  · rename_i heq
    cases heq
    exact absurd rfl h
  · rfl

theorem literal?_string {text : List Char} (h : '"' ∉ text) (offset : Nat) (rest : List Char) :
    literal? ⟨offset, '"' :: (text ++ '"' :: rest)⟩ =
      some ⟨offset, offset + text.length + 2⟩ := by
  simp [literal?, readString_of_not_mem h]

theorem literal?_unclosed {rest : List Char} (h : '"' ∉ rest) (offset : Nat) :
    literal? ⟨offset, '"' :: rest⟩ = none := by
  simp [literal?, readString_of_unclosed h]

theorem Takes.stretch {pending : List Pending} {offset : Nat} {text : List Char} {s : Step}
    (h : Takes pending offset text s) :
    Stretch (literal? ⟨offset, text⟩).toList (openLists (s.left pending) - openLists pending)
      ⟨offset, text⟩ s.cursor := by
  cases h with
  | ended => simpa [Step.left, Step.cursor, literal?] using Stretch.refl ⟨offset, []⟩
  | opens rest =>
    have hdepth : ((openLists pending + 1 : Nat) : Int) - openLists pending = 1 := by omega
    rw [literal?_eq_none (by decide)]
    change Stretch [] (((openLists pending + 1 : Nat) : Int) - openLists pending) _ _
    rw [hdepth]
    exact Stretch.of_mark (.inl rfl) offset rest
  | quotes rest =>
    have hmark := Stretch.of_mark (.inr (.inr rfl)) offset rest
    simpa [Step.left, Step.cursor, openLists, literal?_eq_none, parenWeight] using hmark
  | @closes rest start items outer hpending =>
    subst hpending
    have hdepth : (openLists outer : Int) - ((openLists outer + 1 : Nat) : Int) = -1 := by omega
    rw [literal?_eq_none (by decide), openLists_supply, cursor_supply, openLists, hdepth]
    exact Stretch.of_mark (.inr (.inl rfl)) offset rest
  | closesNone rest =>
    simpa [Step.left, Step.cursor, literal?_eq_none] using Stretch.refl ⟨offset, ')' :: rest⟩
  | @string text rest hquote =>
    rw [literal?_string hquote, openLists_supply, cursor_supply, Int.sub_self]
    exact Stretch.of_string hquote offset rest
  | @unterminated rest hquote =>
    simpa [Step.left, Step.cursor, literal?_unclosed hquote] using
      Stretch.refl ⟨offset, '"' :: rest⟩
  | @token c tail rest hall hstring hquote hrest =>
    have hstretch := Stretch.of_token hall hstring hquote hrest offset
    rw [literal?_eq_none hstring]
    cases hvalue : tokenValue c tail with
    | ok v =>
      change Stretch [] (openLists ((supply v _ pending).left pending) - openLists pending) _
        (supply v _ pending).cursor
      rw [openLists_supply, cursor_supply, Int.sub_self]
      exact hstretch
    | error fault =>
      change Stretch [] (openLists pending - openLists pending) _ _
      rw [Int.sub_self]
      exact hstretch

end Reader

theorem stretch_step (pending : List Reader.Pending) (cursor : Cursor) :
    Stretch (Reader.literal? cursor.skipBlanks).toList
      (Reader.openLists ((Reader.step pending cursor).left pending) - Reader.openLists pending)
      cursor (Reader.step pending cursor).cursor := by
  have hblanks := Stretch.of_skipBlanks cursor
  have htakes := (Reader.takes_step pending cursor).stretch
  simpa using hblanks.trans htakes

/-- Up to the place where reading stops, the scan leaves out the literals that were read, and the
depth of the code follows the lists that are open. -/
theorem Trace.stretch_readFrom (pending : List Reader.Pending) (cursor : Cursor) :
    Stretch (readFrom pending cursor).literals
      (Reader.openLists (readFrom pending cursor).pending - Reader.openLists pending)
      cursor (readFrom pending cursor).place := by
  fun_induction readFrom pending cursor with
  | case1 pending cursor hend =>
    have hpending : pending = [] := by
      simp only [Bool.and_eq_true, List.isEmpty_iff] at hend
      exact hend.1
    subst hpending
    exact Stretch.of_skipBlanks cursor
  | case2 pending cursor hend fault after hstep =>
    have hstretch := stretch_step pending cursor
    rw [hstep] at hstretch
    simpa [withLiteral, halt, place, Reader.Step.left, Reader.Step.cursor] using hstretch
  | case3 pending cursor hend v after hstep ih =>
    have hstretch := stretch_step pending cursor
    rw [hstep] at hstretch
    exact hstretch.trans_of_depth ih
  | case4 pending cursor hend pending' after hstep ih =>
    have hstretch := stretch_step pending cursor
    rw [hstep] at hstretch
    exact hstretch.trans_of_depth ih

section

variable (text : List Char)

/-- The code of a text is the code up to the place where reading stops, and what follows it. -/
theorem codeChars_eq : ∃ found,
    codeChars text = found ++ (Trace.ofText text).place.code ∧
      depthOf found = Reader.openLists (Trace.ofText text).pending ∧
      ∀ i, i ∈ found.map Prod.fst ↔ i < (Trace.ofText text).stop ∧
        ∀ literal ∈ (Trace.ofText text).literals, ¬literal.Covers i := by
  obtain ⟨found, hfound, hdepth, hcovers⟩ :=
    (Trace.stretch_readFrom [] (Cursor.ofText text)).code
  refine ⟨found, hfound, ?_, fun i => ?_⟩
  · simpa [Reader.openLists, Trace.ofText] using hdepth
  · have hi := hcovers i
    simp only [Cursor.ofText, Nat.zero_le, true_and] at hi
    exact hi

theorem not_mem_codeChars_iff {i : Nat} (hi : i < (Trace.ofText text).stop) :
    i ∉ (codeChars text).map Prod.fst ↔
      ∃ literal ∈ (Trace.ofText text).literals, literal.Covers i := by
  obtain ⟨found, hcode, -, hcovers⟩ := codeChars_eq text
  have hlater : i ∉ (Trace.ofText text).place.code.map Prod.fst := fun hmem =>
    absurd (le_of_mem_codeFrom hmem) (Nat.not_le_of_lt hi)
  rw [hcode, List.map_append, List.mem_append, hcovers]
  simp [hlater, hi]

theorem parenDepth_eq_openLists (h : (Trace.ofText text).place.code = []) :
    parenDepth text = Reader.openLists (Trace.ofText text).pending := by
  obtain ⟨found, hcode, hdepth, -⟩ := codeChars_eq text
  rw [parenDepth_eq, hcode, h, List.append_nil, hdepth]

theorem mem_codeChars_lt_stop (h : (Trace.ofText text).place.code = []) {i : Nat}
    (hi : i ∈ (codeChars text).map Prod.fst) : i < (Trace.ofText text).stop := by
  obtain ⟨found, hcode, -, hcovers⟩ := codeChars_eq text
  rw [hcode, h, List.append_nil] at hi
  exact ((hcovers i).mp hi).1

end

theorem Reader.Halted.code_eq_nil {pending : List Pending} {fault : Option ReadFault}
    {place : Cursor} (h : Halted pending fault place)
    (hclose : ∀ position, fault ≠ some (.malformed .unexpectedCloseParen position))
    (hnumeral : ∀ numeral, fault ≠ some (.numeral numeral)) : place.code = [] := by
  cases h with
  | done => rfl
  | missing => rfl
  | string pending offset hquote => exact codeFrom_unclosed hquote _
  | close pending offset => exact absurd rfl (hclose offset)
  | numeral pending fault => exact absurd rfl (hnumeral fault)

theorem Reader.missing_eq (pending : List Pending) (offset : Nat) :
    missing offset pending = .malformed .unexpectedEnd offset ∨
      ∃ start, missing offset pending = .malformed .unterminatedList start ∧
        1 ≤ openLists pending := by
  cases pending with
  | nil => exact .inl rfl
  | cons p pending =>
    cases p with
    | list start items => exact .inr ⟨start, rfl, Nat.le_add_left _ _⟩
    | quote => exact .inl rfl

theorem Reader.Halted.offset_of_unterminatedString {pending : List Pending} {position : Nat}
    {place : Cursor} {fault : Option ReadFault} (h : Halted pending fault place)
    (hfault : fault = some (.malformed .unterminatedString position)) :
    place.offset = position := by
  cases h with
  | missing pending offset =>
    rcases missing_eq pending offset with hmissing | ⟨start, hmissing, -⟩ <;>
      simp [hmissing] at hfault
  | string pending offset hquote =>
    cases hfault
    rfl
  | _ => cases hfault

theorem Reader.Halted.openLists_of_unterminatedList {pending : List Pending} {position : Nat}
    {place : Cursor} {fault : Option ReadFault} (h : Halted pending fault place)
    (hfault : fault = some (.malformed .unterminatedList position)) : 1 ≤ openLists pending := by
  cases h with
  | missing pending offset =>
    rcases missing_eq pending offset with hmissing | ⟨start, hmissing, hopen⟩
    · simp [hmissing] at hfault
    · exact hopen
  | _ => cases hfault

theorem Reader.Halted.pending_of_none {pending : List Pending} {place : Cursor}
    {fault : Option ReadFault} (h : Halted pending fault place) (hfault : fault = none) :
    pending = [] := by
  cases h with
  | done => rfl
  | _ => cases hfault

theorem parenDepth_of_blank {text : List Char} (h : Text.isBlankText text = true) :
    parenDepth text = 0 := by
  have hblanks : ∀ c ∈ text, Text.isBlank c = true := by
    simpa [Text.isBlankText] using h
  have hcode := codeFrom_blanks hblanks 0 []
  rw [List.append_nil] at hcode
  have hdepth := depthOf_numbered
    (fun c hc => Stretch.parenWeight_of_class (by decide) (by decide) (hblanks c hc)) 0
  rw [parenDepth_eq, codeChars, hcode, depthOf_append, hdepth]
  rfl

theorem one_le_parenDepth {text : List Char} {position : Nat}
    (h : (Script.ofText text).fault = some (.malformed .unterminatedList position)) :
    1 ≤ parenDepth text := by
  have hhalted := Trace.halted_readFrom [] (Cursor.ofText text)
  have hfault : (Trace.ofText text).fault = some (.malformed .unterminatedList position) := by
    rw [← h, ← Trace.toScript_ofText]
  have hopen := hhalted.openLists_of_unterminatedList hfault
  have hcode : (Trace.ofText text).place.code = [] := by
    refine hhalted.code_eq_nil ?_ ?_ <;> intro other hother <;>
      cases hfault.symm.trans hother
  rw [parenDepth_eq_openLists text hcode]
  exact_mod_cast hopen

theorem Session.feed_of_unterminatedList {session : Session} {line : List Char} {position : Nat}
    (h : (Script.ofText (Text.joinLines (session.taking line))).fault =
      some (.malformed .unterminatedList position)) :
    (feed line).run session = (.ok [], { session with pending := session.taking line }) := by
  have hdepth := one_le_parenDepth h
  have hblank : ¬Text.isBlankText (Text.joinLines (session.taking line)) = true := fun hblank => by
    have hzero := parenDepth_of_blank hblank
    omega
  rw [run_feed, if_neg hblank, if_pos (by omega)]

theorem Session.feed_then_flush {session : Session} {line : List Char} {position : Nat}
    (h : (Script.ofText (Text.joinLines (session.taking line))).fault =
      some (.malformed .unterminatedList position)) :
    (feed line >>= fun _ => flush).run session =
      (run (Text.joinLines (session.taking line))).run { session with pending := [] } := by
  have hempty : (session.taking line).isEmpty = false := by simp [taking]
  rw [run_bind, feed_of_unterminatedList h]
  simp only [run_flush, hempty, Bool.false_eq_true, ↓reduceIte]

/-- Unless a numeral is refused, the scan leaves out the literals that the reader reads and one
that has no end, and counts the lists that are open where it stops; so a line that leaves a list
open waits, and is run only when it is flushed. -/
theorem codeChars_agree_with_reader (text : List Char)
    (hread : ∀ fault, (Script.ofText text).fault ≠ some (.numeral fault)) :
    (Trace.ofText text).toScript = Script.ofText text ∧
    (∀ i < (Script.ofText text).stop, i ∉ (codeChars text).map Prod.fst ↔
      ∃ literal ∈ (Trace.ofText text).literals, literal.Covers i) ∧
    (∀ position, (Script.ofText text).fault = some (.malformed .unterminatedString position) →
      (Script.ofText text).stop = position ∧
      ∀ i, position ≤ i → i ∉ (codeChars text).map Prod.fst) ∧
    ((∀ position,
        (Script.ofText text).fault ≠ some (.malformed .unexpectedCloseParen position)) →
      parenDepth text = Reader.openLists (Trace.ofText text).pending) ∧
    ((Script.ofText text).fault = none → parenDepth text = 0) ∧
    ∀ position, (Script.ofText text).fault = some (.malformed .unterminatedList position) →
      1 ≤ parenDepth text ∧
      ∀ (session : Session) (line : List Char), text = Text.joinLines (session.taking line) →
        (Session.feed line).run session =
          (.ok [], { session with pending := session.taking line }) ∧
        (Session.feed line >>= fun _ => Session.flush).run session =
          (Session.run text).run { session with pending := [] } := by
  have hscript := Trace.toScript_ofText text
  have hhalted : Reader.Halted (Trace.ofText text).pending (Script.ofText text).fault
      (Trace.ofText text).place := by
    rw [← hscript]
    exact Trace.halted_readFrom [] (Cursor.ofText text)
  have hstop : (Script.ofText text).stop = (Trace.ofText text).stop := by rw [← hscript]
  have hcode := fun hclose => hhalted.code_eq_nil hclose hread
  refine ⟨hscript, ?_, ?_, ?_, ?_, ?_⟩
  · intro i hi
    rw [hstop] at hi
    exact not_mem_codeChars_iff text hi
  · intro position hfault
    have hoffset := hhalted.offset_of_unterminatedString hfault
    refine ⟨hstop.trans hoffset, fun i hi hmem => ?_⟩
    have hnone := hcode (by simp [hfault])
    have hlt := mem_codeChars_lt_stop text hnone hmem
    exact absurd hi (Nat.not_le_of_lt (hoffset ▸ hlt))
  · intro hclose
    exact parenDepth_eq_openLists text (hcode hclose)
  · intro hfault
    rw [parenDepth_eq_openLists text (hcode (by simp [hfault])), hhalted.pending_of_none hfault]
    rfl
  · intro position hfault
    refine ⟨one_le_parenDepth hfault, fun session line htext => ?_⟩
    subst htext
    exact ⟨Session.feed_of_unterminatedList hfault, Session.feed_then_flush hfault⟩

def mixedText : List Char := "(a\"b \"s(\"\"t)\" 'c'd\"(".toList

theorem codeChars_agree_with_reader_mixedText :
    (∀ fault, (Script.ofText mixedText).fault ≠ some (.numeral fault)) ∧
    (Trace.ofText mixedText).literals = [⟨5, 9⟩, ⟨9, 13⟩] ∧
    (∀ i < 20, i ∉ (codeChars mixedText).map Prod.fst ↔ 5 ≤ i ∧ i < 13) ∧
    parenDepth mixedText = 2 ∧
    (Session.feed mixedText).run (Session.start 5) =
      (.ok [], { Session.start 5 with pending := [mixedText] }) := by
  have hfault : (Script.ofText mixedText).fault = some (.malformed .unterminatedList 19) := by
    decide +kernel
  have hstop : (Script.ofText mixedText).stop = 20 := by decide +kernel
  have hliterals : (Trace.ofText mixedText).literals = [⟨5, 9⟩, ⟨9, 13⟩] := by decide +kernel
  have hread : ∀ fault, (Script.ofText mixedText).fault ≠ some (.numeral fault) := by
    simp [hfault]
  obtain ⟨-, hcovered, -, hdepth, -, hlist⟩ := codeChars_agree_with_reader mixedText hread
  refine ⟨hread, hliterals, ?_, ?_, ?_⟩
  · intro i hi
    rw [hcovered i (by omega), hliterals]
    simp [Literal.Covers]
    omega
  · rw [hdepth (by simp [hfault])]
    decide +kernel
  · have hline : (Session.start 5).taking mixedText = [mixedText] := by decide +kernel
    have hfeed := ((hlist 19 hfault).2 (Session.start 5) mixedText (by rw [hline]; rfl)).1
    rwa [hline] at hfeed

end Lisplet
