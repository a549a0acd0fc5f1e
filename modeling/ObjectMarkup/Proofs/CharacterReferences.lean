import ObjectMarkup.Proofs.Places
import ObjectMarkup.Proofs.Reading

/-!
# Character references in text and in values

A reference in text and a reference in an attribute value are read by rules of their own. The two
rules give the same character for a reference that has no capital marker, no plus sign and not the
code point zero (`Reference.inText_eq_inValue`). To say so of documents, a reference is put into the
text of an element and into the value of an attribute, and the tokens of both documents are followed
from one end to the other.
-/

set_option autoImplicit false

namespace ObjectMarkup

/-- A result is a value if it is one without its errors. -/
theorem except_toOption_eq_some {ε α : Type} {x : Except ε α} {a : α} :
    x.toOption = some a ↔ x = .ok a := by
  cases x <;> simp [Except.toOption]

/-- A result is an error if nothing is left without its errors. -/
theorem except_toOption_eq_none {ε α : Type} {x : Except ε α} :
    x.toOption = none ↔ ∃ e, x = .error e := by
  cases x <;> simp [Except.toOption]

/-! ### Characters that a scanner takes -/

/-- Characters that take a scanner from one state to another, whatever follows them, and the items
it emits on the way. -/
def Scanner.Takes {σ ω ε : Type} (m : Scanner σ ω ε) (s : σ) (offset : Nat) (cs : List Char)
    (items : List ω) (s' : σ) : Prop :=
  ∀ rest, m.run s offset (cs ++ rest) = (m.run s' (offset + byteLength cs) rest).prepend items

namespace Scanner.Takes

variable {σ ω ε : Type} {m : Scanner σ ω ε} {s s' s'' : σ} {offset : Nat} {cs cs' : List Char}
  {items items' : List ω}

/-- No characters leave the machine where it is. -/
theorem nil : m.Takes s offset [] [] s := fun _ => rfl

/-- Characters that follow each other are taken one after the other. -/
theorem append (h : m.Takes s offset cs items s')
    (h' : m.Takes s' (offset + byteLength cs) cs' items' s'') :
    m.Takes s offset (cs ++ cs') (items ++ items') s'' := by
  intro rest
  rw [List.append_assoc, h, h', Scan.prepend_prepend, byteLength_append, Nat.add_assoc]

/-- One character is one step. -/
theorem single {c : Char} (h : m.step s offset c = .ok (items, s')) :
    m.Takes s offset [c] items s' := by
  intro rest
  rw [List.singleton_append, run, h]
  rfl

/-- Characters that a scanner only collects, last first. -/
theorem collected (state : List Char → σ) (taken : List Char)
    (h : ∀ taken offset, ∀ c ∈ cs, m.step (state taken) offset c = .ok ([], state (c :: taken))) :
    m.Takes (state taken) offset cs [] (state (cs.reverse ++ taken)) := by
  induction cs generalizing taken offset with
  | nil => exact nil
  | cons c cs ih =>
    have hFirst : m.Takes (state taken) offset [c] [] (state (c :: taken)) :=
      single (h taken offset c List.mem_cons_self)
    have hRest := hFirst.append (ih (c :: taken) fun taken offset x hx =>
      h taken offset x (List.mem_cons_of_mem _ hx))
    simpa using hRest

/-- Characters that a scanner emits as they are. -/
theorem emitted {m : Scanner σ Char ε}
    (h : ∀ offset, ∀ c ∈ cs, m.step s offset c = .ok ([c], s)) : m.Takes s offset cs cs s := by
  induction cs generalizing offset with
  | nil => exact nil
  | cons c cs ih =>
    have hFirst : m.Takes s offset [c] [c] s := single (h offset c List.mem_cons_self)
    exact hFirst.append (ih fun offset x hx => h offset x (List.mem_cons_of_mem _ hx))

/-- If all characters are taken, the end decides what comes last. -/
theorem run_eq (h : m.Takes s offset cs items s')
    (hEnd : m.finish s' (offset + byteLength cs) = .ok items') :
    m.run s offset cs = ⟨items ++ items', none⟩ := by
  have hRun := h []
  rw [List.append_nil, run, hEnd] at hRun
  exact hRun

end Scanner.Takes

namespace Markup

/-! ### The two rules for references -/

namespace Reference

/-- The base and the digits of a reference by number. -/
def code? : List Char → Option (Nat × List Char)
  | '#' :: 'x' :: digits => some (16, digits)
  | '#' :: digits => some (10, digits)
  | _ => none

/-- What text and values take alike: no capital marker, no plus sign and not the code point zero. -/
structure Regular (body : List Char) : Prop where
  marker : ¬['#', 'X'] <+: body
  unsigned : ∀ base digits, code? body = some (base, digits) → digits.head? ≠ some '+'
  nonzero : ∀ base digits, code? body = some (base, digits) →
    Whole.read base .nat32 (String.ofList digits) ≠ .ok 0

/-- A body that starts with the sign of numbers is no name. -/
theorem named_of_number {body : String} {code : List Char} (h : body.toList = '#' :: code) :
    named body = none := by
  have hNot : ∀ name : String, name.toList.head? ≠ some '#' → body ≠ name := by
    rintro name hName rfl
    exact hName (by rw [h]; rfl)
  rw [named, if_neg (hNot "lt" (by decide)), if_neg (hNot "gt" (by decide)),
    if_neg (hNot "amp" (by decide)), if_neg (hNot "apos" (by decide)),
    if_neg (hNot "quot" (by decide))]

/-- A range without negative numbers takes no minus sign. -/
theorem read_minus (base : Nat) (rest : List Char) :
    Whole.read base .nat32 (String.ofList ('-' :: rest)) = .error .invalidDigit := by
  rw [Whole.read, String.toList_ofList]
  cases rest <;> rfl

/-- Numbers without a sign that are not zero mean the same in texts and in values. -/
theorem numbered_eq {base : Nat} {digits : List Char} (hSign : digits.head? ≠ some '+')
    (hZero : Whole.read base .nat32 (String.ofList digits) ≠ .ok 0) :
    numberedInText base digits = (numberedInValue base digits).toOption := by
  rw [numberedInText, numberedInValue]
  by_cases hMinus : digits.head? = some '-'
  · obtain ⟨rest, rfl⟩ := List.head?_eq_some_iff.1 hMinus
    rw [read_minus]
    rfl
  · simp only [hSign, hMinus, decide_false, Bool.or_self, Bool.false_eq_true, if_false]
    cases hRead : Whole.read base .nat32 (String.ofList digits) with
    | error fault => rfl
    | ok n =>
      have hPositive : n ≠ 0 := fun h => hZero (h ▸ hRead)
      simp only [hPositive, if_false]
      cases scalar n.toNat <;> rfl

section Number

variable {body : String} {digits : List Char}

/-- In a text, the small marker stands before hexadecimal digits. -/
theorem inText_small (h : body.toList = '#' :: 'x' :: digits) :
    (inText body).toOption = numberedInText 16 digits := by
  rw [inText, named_of_number h]
  simp only [h]
  cases numberedInText 16 digits <;> rfl

/-- In a text, the capital marker stands before hexadecimal digits too. -/
theorem inText_capital (h : body.toList = '#' :: 'X' :: digits) :
    (inText body).toOption = numberedInText 16 digits := by
  rw [inText, named_of_number h]
  simp only [h]
  cases numberedInText 16 digits <;> rfl

/-- In a text, digits without a marker are decimal. -/
theorem inText_decimal (h : body.toList = '#' :: digits)
    (hSmall : ∀ rest, digits ≠ 'x' :: rest) (hCapital : ∀ rest, digits ≠ 'X' :: rest) :
    (inText body).toOption = numberedInText 10 digits := by
  rw [inText, named_of_number h]
  simp only [h]
  cases numberedInText 10 digits <;> rfl

/-- In a value, the small marker stands before hexadecimal digits. -/
theorem inValue_small (first last : Nat) :
    (inValue first last ('#' :: 'x' :: digits)).toOption =
      (numberedInValue 16 digits).toOption := by
  simp only [inValue]
  cases numberedInValue 16 digits <;> rfl

/-- In a value, all other digits are decimal. -/
theorem inValue_decimal (first last : Nat) (hSmall : ∀ rest, digits ≠ 'x' :: rest) :
    (inValue first last ('#' :: digits)).toOption = (numberedInValue 10 digits).toOption := by
  simp only [inValue]
  cases numberedInValue 10 digits <;> rfl

/-- The capital marker is no decimal digit. -/
theorem inValue_capital (first last : Nat) :
    (inValue first last ('#' :: 'X' :: digits)).toOption = none := by
  have hRead : Whole.read 10 .nat32 (String.ofList ('X' :: digits)) = .error .invalidDigit := by
    rw [Whole.read, String.toList_ofList]
    rfl
  rw [inValue_decimal first last (by simp), numberedInValue, hRead]
  rfl

end Number

/-- Names mean the same in texts and in values. -/
theorem named_eq {body : String} (h : body.toList.head? ≠ some '#') (first last : Nat) :
    (inText body).toOption = (inValue first last body.toList).toOption := by
  rw [inText, inValue.eq_def]
  split <;> split <;> simp_all [Except.toOption]

/-- Text and values give the same character, or both give none. -/
theorem inText_eq_inValue {body : String} (h : Regular body.toList) (first last : Nat) :
    (inText body).toOption = (inValue first last body.toList).toOption := by
  by_cases hNumber : body.toList.head? = some '#'
  · obtain ⟨code, hCode⟩ := List.head?_eq_some_iff.1 hNumber
    obtain ⟨hMarker, hUnsigned, hNonzero⟩ := h
    rw [hCode] at hMarker hUnsigned hNonzero ⊢
    by_cases hSmall : code.head? = some 'x'
    · obtain ⟨digits, rfl⟩ := List.head?_eq_some_iff.1 hSmall
      rw [inText_small hCode, inValue_small,
        numbered_eq (hUnsigned 16 digits rfl) (hNonzero 16 digits rfl)]
    · have hSmall : ∀ rest, code ≠ 'x' :: rest := by
        rintro rest rfl
        exact hSmall rfl
      have hCapital : ∀ rest, code ≠ 'X' :: rest := by
        rintro rest rfl
        exact hMarker ⟨rest, rfl⟩
      have hDecimal : code? ('#' :: code) = some (10, code) := by
        simp only [code?]
      rw [inText_decimal hCode hSmall hCapital, inValue_decimal first last hSmall,
        numbered_eq (hUnsigned 10 code hDecimal) (hNonzero 10 code hDecimal)]
  · exact named_eq hNumber first last

end Reference

/-! ### A reference in a document -/

/-- No character that markup or the reader of an attribute value would take for its own. -/
def Plain (cs : List Char) : Prop := ∀ c ∈ cs, c ≠ '&' ∧ c ≠ '<' ∧ c ≠ '"'

/-- What stands in a document before a reference and after it: plain text that starts and ends with
characters that are not blank. -/
structure Surrounds (before after : String) : Prop where
  before_plain : Plain before.toList
  after_plain : Plain after.toList
  starts : ∃ c ∈ before.toList.head?, isBlank c = false
  ends : ∃ c ∈ after.toList.getLast?, isBlank c = false

/-- The characters that a reference can have between its marks. -/
def IsBody (body : String) : Prop := Plain body.toList ∧ ';' ∉ body.toList

/-- Some text with a reference in it. -/
def withReference (before body after : String) : String := before ++ "&" ++ body ++ ";" ++ after

/-- A document with an element that has this text. -/
def inElement (text : String) : String := "<A>" ++ text ++ "</A>"

/-- A document with an element that has this value in an attribute. -/
def inAttribute (value : String) : String := "<A x=\"" ++ value ++ "\"/>"

section Scanning

open Token (scanner)

/-- The tokens of characters between two states of a scan, wherever in a document they stand. -/
def Reads (s : Token.State) (cs : List Char) (tokens : List Token) (s' : Token.State) : Prop :=
  ∀ offset, ∃ placed, placed.map PlacedToken.token = tokens ∧ scanner.Takes s offset cs placed s'

/-- Characters that follow each other are read to the tokens that follow each other. -/
theorem Reads.append {s s' s'' : Token.State} {cs cs' : List Char} {tokens tokens' : List Token}
    (h : Reads s cs tokens s') (h' : Reads s' cs' tokens' s'') :
    Reads s (cs ++ cs') (tokens ++ tokens') s'' := by
  intro offset
  obtain ⟨placed, hPlaced, hTakes⟩ := h offset
  obtain ⟨placed', hPlaced', hTakes'⟩ := h' (offset + byteLength cs)
  refine ⟨placed ++ placed', ?_, hTakes.append hTakes'⟩
  rw [List.map_append, hPlaced, hPlaced']

/-- A document is read from a state between two constructs to such a state. -/
theorem Reads.scan_eq {source : String} {tokens : List Token} {names : List String}
    (h : Reads ⟨.text [], []⟩ source.toList tokens ⟨.text [], names⟩)
    (hStart : source.toList.head? ≠ some '\uFEFF') :
    ∃ placed, Token.scan source = ⟨placed, none⟩ ∧ placed.map PlacedToken.token = tokens := by
  obtain ⟨placed, hPlaced, hTakes⟩ := h 0
  have hRun : scanner.run ⟨.text [], []⟩ 0 source.toList = ⟨placed ++ [], none⟩ :=
    hTakes.run_eq rfl
  refine ⟨placed, ?_, hPlaced⟩
  rw [List.append_nil] at hRun
  rw [Token.scan, ← hRun]
  cases hSource : source.toList with
  | nil => rfl
  | cons c rest =>
    have hMark : c ≠ '\uFEFF' := fun h => hStart (by rw [hSource, h]; rfl)
    simp [hMark]

/-- Text is read up to the character that ends it. -/
theorem takes_text {text : String} (h : Plain text.toList) (hSome : text.toList ≠ [])
    {names : List String} {offset : Nat} {mark : Char} {mode : Token.Mode}
    (hMark : ∀ taken, scanner.step ⟨.text taken, names⟩ (offset + byteLength text.toList) mark =
      .ok (Token.textToken taken (offset + byteLength text.toList), ⟨mode, names⟩)) :
    scanner.Takes ⟨.text [], names⟩ offset (text.toList ++ [mark])
      [⟨.text text, offset + byteLength text.toList⟩] ⟨mode, names⟩ := by
  have hText : scanner.Takes ⟨.text [], names⟩ offset text.toList []
      ⟨.text (text.toList.reverse ++ []), names⟩ :=
    .collected (fun taken => (⟨.text taken, names⟩ : Token.State)) [] fun taken offset c hc => by
      simp [scanner, Token.step, (h c hc).1, (h c hc).2.1]
  have hTaken : ∀ offset, Token.textToken (text.toList.reverse ++ []) offset =
      [⟨.text text, offset⟩] := by
    intro offset
    simp [Token.textToken, hSome]
  have hLast := Scanner.Takes.single (hMark (text.toList.reverse ++ []))
  rw [hTaken] at hLast
  exact hText.append hLast

variable {before body after : String} {names : List String}

/-- Text and a reference behind it are two tokens. -/
theorem reads_reference (h : Plain before.toList) (hSome : before.toList ≠ []) (hBody : IsBody body) :
    Reads ⟨.text [], names⟩ (before.toList ++ ['&'] ++ body.toList ++ [';'])
      [.text before, .reference body] ⟨.text [], names⟩ := by
  intro offset
  have hText : scanner.Takes ⟨.text [], names⟩ offset (before.toList ++ ['&'])
      [⟨.text before, offset + byteLength before.toList⟩]
      ⟨.reference (offset + byteLength before.toList) [], names⟩ :=
    takes_text h hSome fun _ => rfl
  have hTaken : ∀ start offset, scanner.Takes ⟨.reference start [], names⟩ offset body.toList []
      ⟨.reference start (body.toList.reverse ++ []), names⟩ := by
    intro start offset
    refine .collected (fun taken => (⟨.reference start taken, names⟩ : Token.State)) [] ?_
    intro taken offset c hc
    have hPlain := hBody.1 c hc
    have hOpen : c ≠ ';' := fun hMark => hBody.2 (hMark ▸ hc)
    simp [scanner, Token.step, hPlain.1, hPlain.2.1, hOpen]
  have hClose : ∀ start offset, scanner.Takes
      ⟨.reference start (body.toList.reverse ++ []), names⟩ offset [';']
      [⟨.reference body, offset + 1⟩] ⟨.text [], names⟩ := by
    intro start offset
    apply Scanner.Takes.single
    simp [scanner, Token.step]
  exact ⟨_, rfl, (hText.append (hTaken _ _)).append (hClose _ _)⟩

/-- Text and the end tag behind it are two tokens. -/
theorem reads_end (h : Plain after.toList) (hSome : after.toList ≠ []) :
    Reads ⟨.text [], ["A"]⟩ (after.toList ++ ['<'] ++ "/A>".toList) [.text after, .closing]
      ⟨.text [], []⟩ := by
  intro offset
  have hText : scanner.Takes ⟨.text [], ["A"]⟩ offset (after.toList ++ ['<'])
      [⟨.text after, offset + byteLength after.toList⟩]
      ⟨.opened (offset + byteLength after.toList), ["A"]⟩ :=
    takes_text h hSome fun _ => rfl
  have hTag : ∀ start offset, scanner.Takes ⟨.opened start, ["A"]⟩ offset "/A>".toList
      [⟨.closing, offset + 3⟩] ⟨.text [], []⟩ := fun _ _ _ => rfl
  exact ⟨_, rfl, hText.append (hTag _ _)⟩

/-- The tokens of an element with a reference in its text. -/
theorem tokens_inElement (hAround : Surrounds before after) (hBody : IsBody body) :
    ∃ placed, Token.scan (inElement (withReference before body after)) = ⟨placed, none⟩ ∧
      placed.map PlacedToken.token =
        [.opening ⟨"A"⟩, .text before, .reference body, .text after, .closing] := by
  obtain ⟨hBefore, hAfter, ⟨first, hFirst, -⟩, ⟨last, hLast, -⟩⟩ := hAround
  have hStart : Reads ⟨.text [], []⟩ "<A>".toList [.opening ⟨"A"⟩] ⟨.text [], ["A"]⟩ :=
    fun offset => ⟨[⟨.opening ⟨"A"⟩, offset + 3⟩], rfl, fun _ => rfl⟩
  have hBeforeSome : before.toList ≠ [] := by
    intro hNone
    simp [hNone] at hFirst
  have hAfterSome : after.toList ≠ [] := by
    intro hNone
    simp [hNone] at hLast
  have hReads := (hStart.append (reads_reference hBefore hBeforeSome hBody)).append
    (reads_end hAfter hAfterSome)
  have hSource : (inElement (withReference before body after)).toList =
      "<A>".toList ++ (before.toList ++ ['&'] ++ body.toList ++ [';']) ++
        (after.toList ++ ['<'] ++ "/A>".toList) := by
    simp [inElement, withReference]
  rw [← hSource] at hReads
  exact hReads.scan_eq (by simp [inElement])

/-- A slash before the end of a tag makes it self-closing. -/
theorem tagEnd_selfClosing (names : List String) (start stop : Nat) (content : List Char)
    (h : ∃ c ∈ content.head?, c ≠ '/') :
    Token.tagEnd names start stop (content ++ ['/']) =
      .ok ([⟨.selfClosing ⟨String.ofList content⟩, stop⟩], ⟨.text [], names⟩) := by
  obtain ⟨c, hHead, hc⟩ := h
  obtain ⟨rest, rfl⟩ := List.head?_eq_some_iff.1 hHead
  rw [Token.tagEnd]
  · rw [if_pos List.getLast?_concat, List.dropLast_concat]
  · rintro later hLater
    exact hc (List.cons.inj hLater).1

/-- The quotes keep what stands between them from being read as anything else. -/
theorem tokens_inAttribute {value : String} (h : '"' ∉ value.toList) :
    ∃ placed, Token.scan (inAttribute value) = ⟨placed, none⟩ ∧
      placed.map PlacedToken.token = [.selfClosing ⟨"A x=\"" ++ value ++ "\""⟩] := by
  have hStart : ∀ offset, scanner.Takes ⟨.text [], []⟩ offset "<A x=\"".toList []
      ⟨.tag offset "A x=\"".toList.reverse (some '"'), []⟩ := fun offset _ => rfl
  have hValue : ∀ start offset, scanner.Takes ⟨.tag start "A x=\"".toList.reverse (some '"'), []⟩
      offset value.toList []
      ⟨.tag start (value.toList.reverse ++ "A x=\"".toList.reverse) (some '"'), []⟩ := by
    intro start offset
    refine .collected (fun taken => (⟨.tag start taken (some '"'), []⟩ : Token.State)) _ ?_
    intro taken offset c hc
    have hQuote : c ≠ '"' := fun hMark => h (hMark ▸ hc)
    simp [scanner, Token.step, Token.tagStep, Token.quoteAfter, hQuote]
  have hQuote : ∀ start offset taken, scanner.Takes ⟨.tag start taken (some '"'), []⟩ offset
      "\"/".toList [] ⟨.tag start ('/' :: '"' :: taken) none, []⟩ := fun _ _ _ _ => rfl
  have hEnd : ∀ start offset, scanner.Takes
      ⟨.tag start ('/' :: '"' :: (value.toList.reverse ++ "A x=\"".toList.reverse)) none, []⟩ offset
      ['>'] [⟨.selfClosing ⟨"A x=\"" ++ value ++ "\""⟩, offset + 1⟩] ⟨.text [], []⟩ := by
    intro start offset
    apply Scanner.Takes.single
    have hContent : ('/' :: '"' :: (value.toList.reverse ++ "A x=\"".toList.reverse)).reverse =
        ("A x=\"" ++ value ++ "\"").toList ++ ['/'] := by
      simp
    have hStep : scanner.step
        ⟨.tag start ('/' :: '"' :: (value.toList.reverse ++ "A x=\"".toList.reverse)) none, []⟩ offset
          '>' = Token.tagEnd [] start (offset + 1) (("A x=\"" ++ value ++ "\"").toList ++ ['/']) := by
      rw [← hContent]
      rfl
    have hTag := tagEnd_selfClosing [] start (offset + 1) (("A x=\"" ++ value ++ "\"").toList)
      (by simp)
    rw [hStep, hTag, String.ofList_toList]
  have hReads : Reads ⟨.text [], []⟩ ("<A x=\"".toList ++ value.toList ++ "\"/".toList ++ ['>'])
      [.selfClosing ⟨"A x=\"" ++ value ++ "\""⟩] ⟨.text [], []⟩ := fun offset =>
    ⟨_, rfl, (((hStart offset).append (hValue _ _)).append (hQuote _ _ _)).append (hEnd _ _)⟩
  have hSource : (inAttribute value).toList =
      "<A x=\"".toList ++ value.toList ++ "\"/".toList ++ ['>'] := by
    simp [inAttribute]
  rw [← hSource] at hReads
  exact hReads.scan_eq (by simp [inAttribute])

/-- The tag has one attribute, with the value as it is written. -/
theorem attributes_eq {value : String} (h : '"' ∉ value.toList) :
    Tag.attributes ⟨"A x=\"" ++ value ++ "\""⟩ = ⟨[⟨"x", value⟩], none⟩ := by
  have hStart : ∀ offset, Attribute.scanner.Takes ⟨.between, []⟩ offset " x=\"".toList []
      ⟨.value "x" '"' [], [("x", offset + 1)]⟩ := fun offset _ => rfl
  have hValue : ∀ keys offset, Attribute.scanner.Takes ⟨.value "x" '"' [], keys⟩ offset value.toList []
      ⟨.value "x" '"' (value.toList.reverse ++ []), keys⟩ := by
    intro keys offset
    refine .collected (fun taken => (⟨.value "x" '"' taken, keys⟩ : Attribute.State)) [] ?_
    intro taken offset c hc
    have hQuote : c ≠ '"' := fun hMark => h (hMark ▸ hc)
    simp [Attribute.scanner, hQuote]
  have hEnd : ∀ keys offset, Attribute.scanner.Takes
      ⟨.value "x" '"' (value.toList.reverse ++ []), keys⟩ offset ['"'] [⟨"x", value⟩]
      ⟨.between, keys⟩ := by
    intro keys offset
    apply Scanner.Takes.single
    simp [Attribute.scanner]
  have hRest : ("A x=\"" ++ value ++ "\"").toList.dropWhile (fun c => !isMarkupSpace c) =
      " x=\"".toList ++ value.toList ++ ['"'] := by
    have hName : isMarkupSpace 'A' = false := by decide
    have hSpace : isMarkupSpace ' ' = true := by decide
    simp [hName, hSpace]
  rw [Tag.attributes, hRest]
  exact (((hStart _).append (hValue _ _)).append (hEnd _ _)).run_eq rfl

/-- The tag has its name. -/
theorem name_eq (value : String) : Tag.name ⟨"A x=\"" ++ value ++ "\""⟩ = "A" := by
  have hName : isMarkupSpace 'A' = false := by decide
  have hSpace : isMarkupSpace ' ' = true := by decide
  simp [Tag.name, hName, hSpace]

end Scanning

/-! ### What the documents say -/

section Says

variable {before body after : String}

/-- In a value, only the reference is replaced. -/
theorem replaceInValue_withReference (hBefore : Plain before.toList) (hAfter : Plain after.toList)
    (hBody : IsBody body) :
    (Reference.replaceInValue (withReference before body after)).toOption =
      (Reference.inValue (byteLength before.toList + 1)
        (byteLength (before.toList ++ ['&'] ++ body.toList)) body.toList).toOption.map fun c =>
          before ++ String.singleton c ++ after := by
  generalize hSize : (withReference before body after).utf8ByteSize = size
  have hPlain : ∀ {text : String} offset, Plain text.toList →
      (Reference.valueScanner size).Takes .plain offset text.toList text.toList .plain := by
    intro text offset h
    refine .emitted fun offset c hc => ?_
    simp [Reference.valueScanner, (h c hc).1]
  have hOpen : ∀ offset, (Reference.valueScanner size).Takes .plain offset ['&'] []
      (.reference offset []) := fun offset => .single rfl
  have hTaken : ∀ start offset, (Reference.valueScanner size).Takes (.reference start []) offset
      body.toList [] (.reference start (body.toList.reverse ++ [])) := by
    intro start offset
    refine .collected (Reference.ValueState.reference start) [] fun taken offset c hc => ?_
    have hClose : c ≠ ';' := fun hMark => hBody.2 (hMark ▸ hc)
    simp [Reference.valueScanner, (hBody.1 c hc).1, hClose]
  have hRun := ((hPlain 0 hBefore).append (hOpen _)).append (hTaken _ _) (';' :: after.toList)
  have hShape : (withReference before body after).toList =
      before.toList ++ ['&'] ++ body.toList ++ ';' :: after.toList := by
    simp [withReference]
  have hStep : ∀ start offset, (Reference.valueScanner size).step
      (.reference start (body.toList.reverse ++ [])) offset ';' =
        (Reference.inValue (start + 1) offset body.toList).map fun c => ([c], .plain) := by
    intro start offset
    simp [Reference.valueScanner]
  have hRest : ∀ offset, (Reference.valueScanner size).run .plain offset after.toList =
      ⟨after.toList ++ [], none⟩ := fun offset => (hPlain offset hAfter).run_eq rfl
  rw [Nat.zero_add, Nat.zero_add] at hRun
  rw [Reference.replaceInValue, hSize, hShape, hRun, Scanner.run, hStep]
  cases Reference.inValue (byteLength before.toList + 1)
      (byteLength (before.toList ++ ['&'] ++ body.toList)) body.toList with
  | error fault => rfl
  | ok c =>
    simp only [Except.map, hRest]
    have hText : String.ofList (before.toList ++ [] ++ [] ++ ([c] ++ (after.toList ++ []))) =
        before ++ String.singleton c ++ after := by
      apply String.toList_injective
      simp
    exact congrArg some hText

/-- Nothing is trimmed from a text that starts and ends so. -/
theorem Surrounds.textBetween_eq (h : Surrounds before after) (middle : String) :
    textBetween (before ++ middle ++ after) = [.text (before ++ middle ++ after)] := by
  obtain ⟨-, -, ⟨first, hFirst, hFirstSolid⟩, ⟨last, hLast, hLastSolid⟩⟩ := h
  have hHead : (before ++ middle ++ after).toList.head? = some first := by
    simp [List.head?_append, Option.mem_def.1 hFirst]
  have hStarts : StartsSolid (before ++ middle ++ after).toList := by
    intro c hc
    rw [hHead] at hc
    rwa [← Option.some.inj hc]
  have hEnds : EndsSolid (before ++ middle ++ after).toList := by
    intro c hc
    have hEnd : (before ++ middle ++ after).toList.getLast? = some last := by
      simp [List.getLast?_append, Option.mem_def.1 hLast]
    rw [hEnd] at hc
    rwa [← Option.some.inj hc]
  have hTrim : trimText (before ++ middle ++ after) = before ++ middle ++ after := by
    rw [trimText, trim_eq_self_iff.2 ⟨hStarts, hEnds⟩, String.ofList_toList]
  have hSome : ¬(before ++ middle ++ after).toList.all isBlank = true := by
    intro hBlank
    have hFirstBlank := List.all_eq_true.1 hBlank first (List.mem_of_head? hHead)
    rw [hFirstSolid] at hFirstBlank
    cases hFirstBlank
  rw [textBetween, if_neg hSome, hTrim]

/-- The element has the text with the character in the place of the reference. -/
theorem readAll_inElement (hAround : Surrounds before after) (hBody : IsBody body) :
    (readAll (inElement (withReference before body after))).toOption =
      (Reference.inText body).toOption.map fun c =>
        [.start "A", .text (before ++ String.singleton c ++ after), .finish] := by
  obtain ⟨placed, hScan, hTokens⟩ := tokens_inElement hAround hBody
  rw [readAll_of_scan hScan, hTokens]
  cases hReference : Reference.inText body with
  | error fault =>
    simp only [List.mapM_cons, Token.part, hReference]
    rfl
  | ok c =>
    have hSays : [.opening ⟨"A"⟩, .text before, .reference body, .text after, .closing].mapM
        Token.part = .ok [.opening "A" [], .text before, .text (String.singleton c), .text after,
          .closing] := by
      simp only [List.mapM_cons, Token.part, hReference]
      rfl
    have hForm : normalForm [.opening "A" [], .text before, .text (String.singleton c),
        .text after, .closing] = [.start "A", .text (before ++ String.singleton c ++ after),
          .finish] := by
      rw [normalForm_cons_tag _ rfl, normalForm_text_between _ _ rfl,
        normalForm_text_between _ _ rfl, normalForm_text_tag _ _ rfl]
      have hText := hAround.textBetween_eq (String.singleton c)
      simp only [Part.content, hText]
      rfl
    rw [hSays]
    simp only [Except.toOption, Option.map_some, hForm]

/-- The attribute has the value with its references replaced. -/
theorem readAll_inAttribute {value : String} (h : '"' ∉ value.toList) :
    (readAll (inAttribute value)).toOption =
      (Reference.replaceInValue value).toOption.map fun replaced =>
        [.start "A", .attribute "x" replaced, .finish] := by
  obtain ⟨placed, hScan, hTokens⟩ := tokens_inAttribute h
  have hValues := attributes_eq h
  rw [readAll_of_scan hScan, hTokens]
  cases hReplace : Reference.replaceInValue value with
  | error fault =>
    simp only [List.mapM_cons, Token.part, Tag.values, hValues, hReplace]
    rfl
  | ok replaced =>
    have hSays : [.selfClosing ⟨"A x=\"" ++ value ++ "\""⟩].mapM Token.part =
        .ok [.selfClosing "A" [("x", replaced)]] := by
      simp only [List.mapM_cons, Token.part, Tag.values, hValues, hReplace, name_eq]
      rfl
    have hForm : normalForm [.selfClosing "A" [("x", replaced)]] =
        [.start "A", .attribute "x" replaced, .finish] := normalForm_cons_tag [] rfl
    rw [hSays]
    simp only [Except.toOption, Option.map_some, hForm]

/-- The attribute has the value with the character in the place of the reference. -/
theorem readAll_withReference_inAttribute (hBefore : Plain before.toList)
    (hAfter : Plain after.toList) (hBody : IsBody body) :
    (readAll (inAttribute (withReference before body after))).toOption =
      (Reference.inValue (byteLength before.toList + 1)
        (byteLength (before.toList ++ ['&'] ++ body.toList)) body.toList).toOption.map fun c =>
          [.start "A", .attribute "x" (before ++ String.singleton c ++ after), .finish] := by
  have hQuote : '"' ∉ (withReference before body after).toList := by
    intro hMem
    simp [withReference] at hMem
    rcases hMem with hMem | hMem | hMem
    · exact (hBefore _ hMem).2.2 rfl
    · exact (hBody.1 _ hMem).2.2 rfl
    · exact (hAfter _ hMem).2.2 rfl
  rw [readAll_inAttribute hQuote, replaceInValue_withReference hBefore hAfter hBody, Option.map_map]
  rfl

end Says

/-- The body of a reference with the capital marker is one if its digits are. -/
theorem IsBody.marked {digits : String} (h : IsBody digits) {marker : String}
    (hMarker : marker = "#x" ∨ marker = "#X") : IsBody (marker ++ digits) := by
  have hPlain : Plain marker.toList ∧ ';' ∉ marker.toList := by
    rcases hMarker with rfl | rfl <;> simp [Plain]
  constructor
  · intro c hc
    rw [String.toList_append, List.mem_append] at hc
    exact hc.elim (hPlain.1 c) (h.1 c)
  · rw [String.toList_append, List.mem_append]
    exact not_or.2 ⟨hPlain.2, h.2⟩

/-- The text of an element and the value of an attribute that a reference stands in are both faulty,
or they are the same string. -/
def MeansTheSame (before body after : String) : Prop :=
  ((∃ fault, readAll (inElement (withReference before body after)) = .error fault) ∧
      ∃ fault, readAll (inAttribute (withReference before body after)) = .error fault) ∨
    ∃ content,
      readAll (inElement (withReference before body after)) =
        .ok [.start "A", .text content, .finish] ∧
      readAll (inAttribute (withReference before body after)) =
        .ok [.start "A", .attribute "x" content, .finish]

/-- A reference without a capital marker, a plus sign and the code point zero means the same in the
text of an element and in the value of an attribute. With the capital marker it is a fault in a
value, and in text it means what it means with the small one. -/
theorem reference_means_the_same (before after : String) (hAround : Surrounds before after) :
    (∀ body, IsBody body → Reference.Regular body.toList → MeansTheSame before body after) ∧
      ∀ digits, IsBody digits →
        (∃ fault, readAll (inAttribute (withReference before ("#X" ++ digits) after)) =
          .error fault) ∧
        (readAll (inElement (withReference before ("#X" ++ digits) after))).toOption =
          (readAll (inElement (withReference before ("#x" ++ digits) after))).toOption := by
  have hInAttribute := fun {body : String} (hBody : IsBody body) =>
    readAll_withReference_inAttribute hAround.before_plain hAround.after_plain hBody
  constructor
  · intro body hBody hRegular
    have hText := readAll_inElement hAround hBody
    have hValue := hInAttribute hBody
    rw [← Reference.inText_eq_inValue hRegular] at hValue
    cases hReference : Reference.inText body with
    | error fault =>
      rw [hReference] at hText hValue
      exact .inl ⟨except_toOption_eq_none.1 hText, except_toOption_eq_none.1 hValue⟩
    | ok c =>
      rw [hReference] at hText hValue
      exact .inr ⟨_, except_toOption_eq_some.1 hText, except_toOption_eq_some.1 hValue⟩
  · intro digits hDigits
    have hSmall := hDigits.marked (.inl rfl)
    have hCapital := hDigits.marked (.inr rfl)
    have hSmallList : ("#x" ++ digits).toList = '#' :: 'x' :: digits.toList := by simp
    have hCapitalList : ("#X" ++ digits).toList = '#' :: 'X' :: digits.toList := by simp
    constructor
    · apply except_toOption_eq_none.1
      rw [hInAttribute hCapital, hCapitalList, Reference.inValue_capital]
      rfl
    · rw [readAll_inElement hAround hCapital, readAll_inElement hAround hSmall,
        Reference.inText_capital hCapitalList, Reference.inText_small hSmallList]

/-- A letter on each side keeps a text from being trimmed. -/
theorem surrounds_letters : Surrounds "a" "b" where
  before_plain := by simp [Plain]
  after_plain := by simp [Plain]
  starts := ⟨'a', rfl, by decide⟩
  ends := ⟨'b', rfl, by decide⟩

/-- A letter by number, with either marker. -/
theorem letter_means_the_same :
    Surrounds "a" "b" ∧ IsBody "#x41" ∧ Reference.Regular "#x41".toList ∧
      MeansTheSame "a" "#x41" "b" ∧ IsBody "41" ∧
      (∃ fault, readAll (inAttribute (withReference "a" ("#X" ++ "41") "b")) = .error fault) ∧
      (readAll (inElement (withReference "a" ("#X" ++ "41") "b"))).toOption =
        (readAll (inElement (withReference "a" ("#x" ++ "41") "b"))).toOption := by
  have hBody : IsBody "#x41" := by simp [IsBody, Plain]
  have hDigits : IsBody "41" := by simp [IsBody, Plain]
  have hRegular : Reference.Regular "#x41".toList := by
    have hCode : Reference.code? "#x41".toList = some (16, ['4', '1']) := rfl
    refine ⟨by decide, ?_, ?_⟩
    · intro base digits h
      cases hCode.symm.trans h
      decide
    · intro base digits h
      cases hCode.symm.trans h
      decide
  obtain ⟨hSame, hCapital⟩ := reference_means_the_same "a" "b" surrounds_letters
  exact ⟨surrounds_letters, hBody, hRegular, hSame "#x41" hBody hRegular, hDigits,
    hCapital "41" hDigits⟩

/-- With the capital marker, a reference without white space, quotes and marks of its own can stand
in text and not in a value. -/
theorem capital_marker_differs :
    ¬∀ body : String,
      (∀ c ∈ body.toList, c ∉ ['&', ';', '<', '"', '\''] ∧ isBlank c = false) →
        MeansTheSame "a" body "b" := by
  intro h
  have hBody : IsBody "#X41" := by simp [IsBody, Plain]
  have hText := readAll_inElement surrounds_letters hBody
  have hValue := readAll_withReference_inAttribute surrounds_letters.before_plain
    surrounds_letters.after_plain hBody
  have hShape : "#X41".toList = '#' :: 'X' :: "41".toList := rfl
  have hLetter : Reference.numberedInText 16 "41".toList = some 'A' := by decide
  rw [Reference.inText_capital hShape, hLetter] at hText
  rw [hShape, Reference.inValue_capital] at hValue
  have hFree : ∀ c ∈ "#X41".toList, c ∉ ['&', ';', '<', '"', '\''] ∧ isBlank c = false := by
    have hAll : ("#X41".toList.all fun c =>
        decide (c ∉ ['&', ';', '<', '"', '\''] ∧ isBlank c = false)) = true := by decide
    intro c hc
    exact of_decide_eq_true (List.all_eq_true.1 hAll c hc)
  rcases h "#X41" hFree with ⟨⟨fault, hFault⟩, -⟩ | ⟨content, -, hContent⟩
  · rw [hFault] at hText
    cases hText
  · rw [hContent] at hValue
    cases hValue

end Markup

end ObjectMarkup
