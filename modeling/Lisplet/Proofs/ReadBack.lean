import Lisplet.Proofs.CanonicalNumber
import Lisplet.Proofs.Descent
import Lisplet.Proofs.NumeralText
import Lisplet.Proofs.PrintedText
import Lisplet.Script

/-!
Reading the printed text of a value. Lists, symbols and strings come back as they were; a tail
that is no list comes back as two more elements, a closure as the expression that makes it, and
a number as the one nearest to its printed digits.
-/

set_option autoImplicit false

namespace Lisplet

/-- A name that is one token and no numeral. -/
def isPlainName : List Char → Bool
  | [] => false
  | c :: tail =>
    (c :: tail).all (fun d => !Text.isDelimiter d) && c != '"' && c != '\'' &&
      !(Reader.startsNumeral c && (Numeral.read? (c :: tail)).isSome)

/-- What a number reads back as: what its six places say, and symbols for those without any. -/
def Binary64.readBack : Binary64 → Value
  | .nan => .symbol "nan"
  | .infinite false => .symbol "inf"
  | .infinite true => .double (.infinite true)
  | .finite negative rank =>
    .ofNumber (.ofRatio negative (toPlaces 6 rank * unitsPerOne) (10 ^ 6))

namespace Value

/-- The names of symbols are plain, and no string holds a double quote. -/
def isReadable : Value → Bool
  | .symbol name => isPlainName name.toList
  | .string text => !text.toList.contains '"'
  | .pair head tail => head.isReadable && tail.isReadable
  | .closure params body _ => params.isReadable && body.isReadable
  | _ => true

def readBack : Value → Value
  | .nil => .nil
  | .long n => .ofNumber (.ofInt n)
  | .double x => x.readBack
  | .symbol name => .symbol name
  | .string text => .string text
  | .pair head tail =>
    .pair head.readBack
      (if tail.isList then tail.readBack else ofList [.symbol ".", tail.readBack] .nil)
  | .closure params body _ => ofList [.symbol "lambda", params.readBack, body.readBack] .nil

/-- What stands after an element of a list reads back as these elements. -/
def readBackRest (tail : Value) : Value :=
  if tail.isList then tail.readBack else ofList [.symbol ".", tail.readBack] .nil

/-- Proper lists of symbols, strings and integers that are numbers exactly. -/
def IsExact : Value → Prop
  | .nil | .symbol _ | .string _ => True
  | .long n => isLong n = true ∧ ∃ x : Binary64, x.isInt n = true
  | .pair head tail => head.IsExact ∧ tail.IsExact ∧ tail.isList = true
  | .double _ | .closure _ _ _ => False

theorem readBack_pair (head tail : Value) :
    (Value.pair head tail).readBack = .pair head.readBack tail.readBackRest := rfl

end Value

namespace Descent

/-- Before a delimiter or the end of a text, these characters are an expression with this value. -/
def Reads (text : List Char) (v : Value) : Prop :=
  ∀ offset rest, Delimited rest →
    expression ⟨offset, text ++ rest⟩ = ⟨.ok v, ⟨offset + text.length, rest⟩⟩

/-- Inside a list these characters are its last elements and its closing parenthesis. -/
def ReadsRest (text : List Char) (v : Value) : Prop :=
  ∀ start offset rest,
    elements start ⟨offset, text ++ rest⟩ = ⟨.ok v, ⟨offset + text.length, rest⟩⟩

theorem delimited_cons {c : Char} (h : Text.isDelimiter c = true) (rest : List Char) :
    Delimited (c :: rest) := by
  intro d hd
  cases Option.mem_some.mp hd
  exact h

theorem delimited_nil : Delimited [] := by simp [Delimited]

theorem readsRest_nil : ReadsRest [')'] .nil := fun start offset rest =>
  elements_close start offset rest

theorem readsRest_blank {text : List Char} {v : Value} (h : ReadsRest text v) :
    ReadsRest (' ' :: text) v := by
  intro start offset rest
  rw [List.cons_append, elements_blank (by decide), h start (offset + 1) rest, List.length_cons]
  congr 2
  omega

theorem readsRest_pair {text more : List Char} {c : Char} {head tail : Value}
    (hhead : Reads text head) (hc : Text.isDelimiter c = true)
    (htail : ReadsRest (c :: more) tail) :
    ReadsRest (text ++ c :: more) (.pair head tail) := by
  intro start offset rest
  have hfirst := hhead offset (c :: more ++ rest) (delimited_cons hc _)
  rw [List.append_assoc, elements_of_expression hfirst, htail start _ rest, Reading.map_ok,
    List.length_append]
  congr 2
  omega

theorem reads_list {text : List Char} {v : Value} (h : ReadsRest text v) :
    Reads ('(' :: text) v := by
  intro offset rest hrest
  rw [List.cons_append, expression_open, h offset (offset + 1) rest, List.length_cons]
  congr 2
  omega

theorem reads_token {c : Char} {tail : List Char} {v : Value}
    (hall : ∀ d ∈ c :: tail, Text.isDelimiter d = false) (hstring : c ≠ '"')
    (hquote : c ≠ '\'') (hvalue : Reader.tokenValue c tail = .ok v) : Reads (c :: tail) v := by
  intro offset rest hrest
  rw [List.cons_append, expression_token hall hstring hquote hrest, hvalue, List.length_cons]
  simp only [Except.mapError]
  congr 2
  omega

theorem reads_symbol {cs : List Char} (h : isPlainName cs = true) :
    Reads cs (.symbol (String.ofList cs)) := by
  cases cs with
  | nil => cases h
  | cons c tail =>
    simp only [isPlainName, Bool.and_eq_true, List.all_eq_true, Bool.not_eq_true', bne_iff_ne,
      ne_eq, Bool.and_eq_false_iff, Option.isSome_eq_false_iff] at h
    obtain ⟨⟨⟨hall, hstring⟩, hquote⟩, hnumeral⟩ := h
    refine reads_token hall hstring hquote ?_
    rcases hnumeral with hstart | hnone
    · simp [Reader.tokenValue, hstart]
    · rw [Option.isNone_iff_eq_none] at hnone
      simp [Reader.tokenValue, Value.ofNumeral?, hnone]

theorem reads_string {text : List Char} (h : '"' ∉ text) :
    Reads ('"' :: (text ++ ['"'])) (.string (String.ofList text)) := by
  intro offset rest hrest
  have hread := expression_string h offset rest
  simp only [List.cons_append, List.append_assoc, List.nil_append, hread, List.length_cons,
    List.length_append, List.length_nil]
  rfl

theorem not_isDelimiter_of_isAsciiDigit {c : Char} (h : Text.isAsciiDigit c = true) :
    Text.isDelimiter c = false := by
  rw [Bool.eq_false_iff]
  intro hc
  simp only [Text.isAsciiDigit, Bool.and_eq_true, decide_eq_true_eq] at h
  simp only [Text.isDelimiter, Text.isBlank, Bool.or_eq_true, Bool.and_eq_true,
    decide_eq_true_eq, beq_iff_eq] at hc
  rcases hc with (hblank | rfl) | rfl
  · omega
  · exact absurd h (by decide)
  · exact absurd h (by decide)

def isNumberChar (c : Char) : Bool := c.isDigit || c == '.' || c == '-'

theorem isNumberChar_spec {c : Char} (h : isNumberChar c = true) :
    Reader.startsNumeral c = true ∧ Text.isDelimiter c = false ∧ c ≠ '"' ∧ c ≠ '\'' := by
  simp only [isNumberChar, Bool.or_eq_true, beq_iff_eq] at h
  rcases h with (hdigit | rfl) | rfl
  · have hascii := Text.isAsciiDigit_of_isDigit hdigit
    refine ⟨by simp [Reader.startsNumeral, hascii], not_isDelimiter_of_isAsciiDigit hascii,
      ?_, ?_⟩
    · rintro rfl
      exact absurd hascii (by decide)
    · rintro rfl
      exact absurd hascii (by decide)
  · decide
  · decide

theorem reads_numeral {cs : List Char} {v : Value} (hne : cs ≠ [])
    (hchars : ∀ c ∈ cs, isNumberChar c = true) (hread : Value.ofNumeral? cs = some (.ok v)) :
    Reads cs v := by
  cases cs with
  | nil => exact absurd rfl hne
  | cons c tail =>
    have hall : ∀ d ∈ c :: tail, Text.isDelimiter d = false :=
      fun d hd => (isNumberChar_spec (hchars d hd)).2.1
    obtain ⟨hstart, -, hstring, hquote⟩ := isNumberChar_spec (hchars c (by simp))
    refine reads_token hall hstring hquote ?_
    simp [Reader.tokenValue, hstart, hread]

theorem isNumberChar_signChars (negative : Bool) :
    ∀ c ∈ Text.signChars negative, isNumberChar c = true := by
  cases negative <;> simp [Text.signChars, isNumberChar]

theorem isNumberChar_of_isDigit {c : Char} (h : c.isDigit = true) : isNumberChar c = true := by
  simp [isNumberChar, h]

theorem reads_long (n : Int) : Reads (toString n).toList (.ofNumber (.ofInt n)) := by
  refine reads_numeral ?_ ?_ (Value.ofNumeral?_int n)
  · rw [Value.toList_toString_int]
    simp
  · intro c hc
    rw [Value.toList_toString_int] at hc
    rcases List.mem_append.mp hc with hsign | hdigit
    · exact isNumberChar_signChars _ c hsign
    · exact isNumberChar_of_isDigit (Binary64.isDigit_of_mem_toDigits hdigit)

theorem isNumberChar_fixedText {negative : Bool} {rank : Fin Binary64.rankBound} {places : Nat} :
    ∀ c ∈ ((Binary64.finite negative rank).fixedText places).toList, isNumberChar c = true := by
  intro c hc
  rw [Binary64.toList_fixedText] at hc
  simp only [List.mem_append, List.mem_cons] at hc
  rcases hc with hsign | hwhole | rfl | hfraction
  · exact isNumberChar_signChars _ c hsign
  · exact isNumberChar_of_isDigit (Binary64.isDigit_of_mem_toDigits hwhole)
  · rfl
  · exact isNumberChar_of_isDigit (Binary64.isDigit_of_mem_fractionChars hfraction)

theorem reads_double (x : Binary64) : Reads (x.fixedText 6).toList x.readBack := by
  cases x with
  | nan => exact reads_symbol (by decide : isPlainName "nan".toList = true)
  | infinite negative =>
    cases negative with
    | false => exact reads_symbol (by decide : isPlainName "inf".toList = true)
    | true =>
      have htext : ((Binary64.infinite true).fixedText 6).toList = '-' :: ['i', 'n', 'f'] := by
        decide
      have hvalue : Reader.tokenValue '-' ['i', 'n', 'f'] = .ok (.double (.infinite true)) := by
        decide +kernel
      have hall : ∀ d ∈ '-' :: ['i', 'n', 'f'], Text.isDelimiter d = false := by
        intro d hd
        simp only [List.mem_cons, List.not_mem_nil, or_false] at hd
        rcases hd with rfl | rfl | rfl | rfl <;> rfl
      rw [htext]
      exact reads_token hall (by decide) (by decide) hvalue
  | finite negative rank =>
    refine reads_numeral ?_ isNumberChar_fixedText
      (Value.ofNumeral?_fixedText (by omega) (by omega) negative rank)
    simp [Binary64.toList_fixedText]

theorem readsRest_dotted {text : List Char} {v : Value} (h : Reads text v) :
    ReadsRest (" . ".toList ++ (text ++ [')'])) (.ofList [.symbol ".", v] .nil) := by
  have hpoint : Reads ['.'] (.symbol ".") := reads_symbol (by decide)
  have hlast := readsRest_pair h (by decide) readsRest_nil
  exact readsRest_blank (readsRest_pair hpoint (by decide) (readsRest_blank hlast))

theorem writtenRest_eq_cons (v : Value) :
    ∃ c more, v.writtenRest = c :: more ∧ Text.isDelimiter c = true := by
  have hclose : Text.isDelimiter ')' = true := by decide
  have hblank : Text.isDelimiter ' ' = true := by decide
  cases v <;> simp [Value.writtenRest, hclose, hblank]

theorem reads_closure {params body : List Char} {v w : Value} (hparams : Reads params v)
    (hbody : Reads body w) :
    Reads ("(lambda ".toList ++ (params ++ ' ' :: (body ++ [')'])))
      (.ofList [.symbol "lambda", v, w] .nil) := by
  have hlambda : Reads "lambda".toList (.symbol "lambda") := reads_symbol (by decide)
  have hlast := readsRest_blank (readsRest_pair hbody (by decide) readsRest_nil)
  have hrest := readsRest_blank (readsRest_pair hparams (by decide) hlast)
  have hlist := reads_list (readsRest_pair hlambda (by decide) hrest)
  simpa [Value.ofList] using hlist

/-- The text of a value is an expression that reads back, and so is the text that follows an
element of a list. -/
theorem reads_written (v : Value) (h : v.isReadable = true) :
    Reads v.written v.readBack ∧ ReadsRest v.writtenRest v.readBackRest := by
  induction v with
  | nil =>
    have htext : Value.nil.written = ['(', ')'] := by simp [Value.written, Value.atomText]
    have hrest : Value.nil.writtenRest = [')'] := by simp [Value.writtenRest]
    rw [htext, hrest]
    exact ⟨reads_list readsRest_nil, readsRest_nil⟩
  | long n =>
    simp only [Value.written, Value.writtenRest, Value.atomText]
    exact ⟨reads_long n, readsRest_dotted (reads_long n)⟩
  | double x =>
    simp only [Value.written, Value.writtenRest, Value.atomText]
    exact ⟨reads_double x, readsRest_dotted (reads_double x)⟩
  | symbol name =>
    have hsymbol := reads_symbol h
    rw [String.ofList_toList] at hsymbol
    simp only [Value.written, Value.writtenRest, Value.atomText]
    exact ⟨hsymbol, readsRest_dotted hsymbol⟩
  | string text =>
    have hquote : '"' ∉ text.toList := by simpa [Value.isReadable] using h
    have hstring := reads_string hquote
    rw [String.ofList_toList] at hstring
    have htext : (Value.string text).written = '"' :: (text.toList ++ ['"']) := by
      simp [Value.written, Value.atomText]
    have hrest : (Value.string text).writtenRest =
        " . ".toList ++ ('"' :: (text.toList ++ ['"']) ++ [')']) := by
      simp [Value.writtenRest, htext]
    rw [htext, hrest]
    exact ⟨hstring, readsRest_dotted hstring⟩
  | pair head tail hhead htail =>
    simp only [Value.isReadable, Bool.and_eq_true] at h
    obtain ⟨c, more, hmore, hc⟩ := writtenRest_eq_cons tail
    have htail' := (htail h.2).2
    rw [hmore] at htail'
    have hrest := readsRest_pair (hhead h.1).1 hc htail'
    rw [← hmore] at hrest
    simp only [Value.written, Value.writtenRest]
    exact ⟨reads_list hrest, readsRest_blank hrest⟩
  | closure params body frame hparams hbody =>
    simp only [Value.isReadable, Bool.and_eq_true] at h
    have hclosure := reads_closure (hparams h.1).1 (hbody h.2).1
    have htext : (Value.closure params body frame).written =
        "(lambda ".toList ++ (params.written ++ ' ' :: (body.written ++ [')'])) := by
      simp [Value.written]
    simp only [Value.writtenRest, htext]
    exact ⟨hclosure, readsRest_dotted hclosure⟩

end Descent

theorem Value.parse_written {v : Value} (h : v.isReadable = true) :
    Value.parse v.written = .ok v.readBack := by
  have hread := (Descent.reads_written v h).1 0 [] Descent.delimited_nil
  rw [List.append_nil] at hread
  have hcursor : (Cursor.ofText v.written).read = ⟨.ok v.readBack, ⟨0 + v.written.length, []⟩⟩ :=
    (Descent.readFrom_eq_descend [] (Cursor.ofText v.written)).trans hread
  simp [Value.parse, hcursor]

theorem Value.readBack_of_isExact {v : Value} (h : v.IsExact) : v.readBack = v := by
  induction v with
  | nil => rfl
  | long n =>
    obtain ⟨hlong, x, hx⟩ := h
    exact ofNumber_ofInt hlong hx
  | double x => cases h
  | symbol name => rfl
  | string text => rfl
  | pair head tail hhead htail =>
    obtain ⟨hh, ht, hlist⟩ := h
    rw [readBack_pair, readBackRest, if_pos hlist, hhead hh, htail ht]
  | closure params body frame => cases h

/-- Reading what was printed gives what the value reads back as, which is the value itself when
it consists of proper lists of symbols, strings and exact integers. -/
theorem parse_print (v : Value) (h : v.isReadable = true) :
    Value.parse v.print.toList = .ok v.readBack ∧
    (v.IsExact → Value.parse v.print.toList = .ok v) := by
  have hread : Value.parse v.print.toList = .ok v.readBack := by
    rw [Value.toList_print]
    exact Value.parse_written h
  refine ⟨hread, fun hexact => ?_⟩
  rw [hread, Value.readBack_of_isExact hexact]

def Value.closureTail : Value :=
  .pair (.long 5) (.closure (.double (.ofInt 3)) (.string "a b") 0)

def Value.exactList : Value :=
  .ofList [.symbol "-", .ofList [.long (-9007199254740991), .nil] .nil, .string "(;"] .nil

theorem parse_print_closureTail_exactList :
    Value.closureTail.isReadable = true ∧ Value.exactList.isReadable = true ∧
    Value.parse Value.closureTail.print.toList = .ok (.ofList [.long 5, .symbol ".",
      .ofList [.symbol "lambda", .long 3, .string "a b"] .nil] .nil) ∧
    Value.parse Value.exactList.print.toList = .ok Value.exactList := by
  have htail : Value.closureTail.isReadable = true := by decide +kernel
  have hlist : Value.exactList.isReadable = true := by decide +kernel
  have hback : Value.closureTail.readBack = .ofList [.long 5, .symbol ".",
      .ofList [.symbol "lambda", .long 3, .string "a b"] .nil] .nil := by decide +kernel
  have hinteger : (Binary64.ofInt (-9007199254740991)).isInt (-9007199254740991) = true := by
    decide +kernel
  have hexact : Value.exactList.IsExact := by
    have hlong : isLong (-9007199254740991) = true := by decide
    exact ⟨trivial, ⟨⟨⟨hlong, _, hinteger⟩, ⟨trivial, trivial, rfl⟩, rfl⟩,
      ⟨trivial, trivial, rfl⟩, rfl⟩, rfl⟩
  refine ⟨htail, hlist, ?_, (parse_print Value.exactList hlist).2 hexact⟩
  rw [← hback]
  exact (parse_print Value.closureTail htail).1

end Lisplet
