import TradingRules.Expr.Text
import TradingRules.Proofs.Decimal.ReadBack
import TradingRules.Proofs.Expr.Formed

/-!
# What the text of a tree spells

The text of a formed tree is lexed without a fault and derives in the grammar as one written expression,
`written`, though not always as one that has the tree (`derives_text`): a prefix operator moves in front
of the postfix steps behind it, a character without an escape of its own becomes several, and a float
without a point becomes an integer or a name.
-/

namespace TradingRules

open Grammar
open Token (Lexes Boundary IsWord)

namespace Written

/-- A postfix step behind a written expression, of which prefix operators take the whole. -/
def followedBy (step : Written → Written) : Written → Written
  | .unary op w => .unary op (followedBy step w)
  | w => step w

def isUnary : Written → Bool
  | .unary _ _ => true
  | _ => false

section
variable {w : Written} {step : Written → Written}

theorem followedBy_of_not_isUnary (h : w.isUnary = false) : w.followedBy step = step w := by
  cases w with
  | unary op operand => cases h
  | _ => rfl

theorem isUnary_followedBy (h : w.isUnary = true) : (w.followedBy step).isUnary = true := by
  cases w with
  | unary op operand => rfl
  | _ => cases h

end

def signed (negative : Bool) (w : Written) : Written := if negative then .unary .negate w else w

end Written

namespace Expr

open Written (signed)

/-- Digits without a point are those of an integer, and infinity is a name. -/
def writtenNumeral (x : Double) : Written :=
  if x.magnitude?.isNone then .ident (Decimal.numeral x)
  else if '.' ∈ (Decimal.numeral x).toList then .literal .float (Decimal.numeral x)
  else .literal .int (Decimal.numeral x)

/-- A list or a map is no literal of a formed tree. -/
def writtenLiteral : Value → Written
  | .null => .literal .keyword "null"
  | .bool b => .literal .keyword (if b then "true" else "false")
  | .int i => signed (decide (i.toInt < 0)) (.literal .int (toString i.toInt.natAbs))
  | .float x => signed (Decimal.isSigned x) (writtenNumeral x)
  | .str s => .literal .string (String.ofList (s.toList.flatMap Token.reread))
  | v => .ident v.text

mutual

@[simp] def written : Expr → Written
  | .literal v => writtenLiteral v
  | .ident name => .ident name
  | .member target field => (written target).followedBy (.member · field)
  | .index target key => (written target).followedBy (.index · (written key))
  | .call name args => .call name (writtenAll args)
  | .unary op operand => .unary op (written operand)
  | .binary op left right => .bracketed (.binary op (written left) (written right))
  | .ternary condition yes no => .bracketed (.ternary (written condition) (written yes) (written no))
  | .list items => .list (writtenAll items)
  | .comprehension kind range var body =>
    (written range).followedBy (.method · kind.name [.ident var, written body])
  | .has target => .call "has" [written target]

@[simp] def writtenAll : List Expr → List Written
  | [] => []
  | e :: rest => written e :: writtenAll rest

end

-- ---------------------------------------------------------------------------
-- Derivations
-- ---------------------------------------------------------------------------

section
variable {ts us : List Token} {w : Written} {t : Token}

theorem derives_literal {kind : Token.Kind} {text : String} (hkind : t.kind = kind) (htext : t.text = text)
    (h : t.isLiteral = true) : Derives .unary [t] (.literal kind text) :=
  hkind ▸ htext ▸ .postfixed (.primary (.literal h))

theorem derives_ident {name : String} (hkind : t.kind = .identifier) (htext : t.text = name) :
    Derives .unary [t] (.ident name) :=
  htext ▸ .postfixed (.primary (.ident hkind))

theorem expression_of_level {level : Level} (h : Derives (.level level) ts w) : Derives .expression ts w := by
  have hand (h : Derives (.level .and) ts w) : Derives .expression ts w := .plain (.operand h)
  have hequality (h : Derives (.level .equality) ts w) : Derives .expression ts w := hand (.operand h)
  have hrelation (h : Derives (.level .relation) ts w) : Derives .expression ts w := hequality (.operand h)
  have hsum (h : Derives (.level .sum) ts w) : Derives .expression ts w := hrelation (.operand h)
  cases level with
  | or => exact .plain h
  | and => exact hand h
  | equality => exact hequality h
  | relation => exact hrelation h
  | sum => exact hsum h
  | product => exact hsum (.operand h)

theorem level_of_unary (h : Derives .unary ts w) (level : Level) : Derives (.level level) ts w := by
  have hproduct : Derives (.level .product) ts w := .operand h
  have hsum : Derives (.level .sum) ts w := .operand hproduct
  have hrelation : Derives (.level .relation) ts w := .operand hsum
  have hequality : Derives (.level .equality) ts w := .operand hrelation
  have hand : Derives (.level .and) ts w := .operand hequality
  cases level with
  | or => exact .operand hand
  | and => exact hand
  | equality => exact hequality
  | relation => exact hrelation
  | sum => exact hsum
  | product => exact hproduct

theorem operand_of_unary (h : Derives .unary ts w) (level : Level) : Derives (operand level) ts w := by
  unfold operand
  split
  · exact level_of_unary h _
  · exact h

theorem expression_of_unary (h : Derives .unary ts w) : Derives .expression ts w :=
  expression_of_level (level_of_unary h .or)

theorem not_isUnary_of_postfixed (h : Derives .postfixed ts w) : w.isUnary = false := by
  cases w with
  | unary op w => cases h with | primary h => cases h
  | _ => rfl

/-- A step behind a unary phrase belongs to the postfix phrase behind its prefix operators. -/
theorem derives_followedBy {step : Written → Written}
    (hstep : ∀ ts w, Derives .postfixed ts w → Derives .postfixed (ts ++ us) (step w)) :
    ∀ {ts w}, Derives .unary ts w → Derives .unary (ts ++ us) (w.followedBy step)
  | _, _, .unary hop h => .unary hop (derives_followedBy hstep h)
  | ts, w, .postfixed h => by
    rw [Written.followedBy_of_not_isUnary (not_isUnary_of_postfixed h)]
    exact .postfixed (hstep ts w h)

end

-- ---------------------------------------------------------------------------
-- Words and symbols
-- ---------------------------------------------------------------------------

variable {rest rest' : List Char} {P : List Token → Prop}

def isPlainWord (word : List Char) : Bool :=
  word.all Token.continuesWord &&
    word.head?.any fun c => !Text.isBlank c && !Text.isAsciiDigit c && c != '"' && c != '\'' && Token.startsWord c

theorem isWord_of_isPlainWord {word : List Char} (h : isPlainWord word = true) : IsWord word := by
  cases word with
  | nil => cases h
  | cons c tail =>
    simp only [isPlainWord, List.head?_cons, Option.any_some, Bool.and_eq_true, Bool.not_eq_true', bne_iff_ne,
      List.all_eq_true] at h
    obtain ⟨hcontinues, ⟨⟨⟨hblank, hdigit⟩, hdouble⟩, hsingle⟩, hstart⟩ := h
    exact ⟨⟨c, tail, rfl, hblank, hdigit, by simp [hdouble, hsingle], hstart⟩, hcontinues⟩

theorem isName_comprehension (kind : Comprehension) : IsName kind.name := by
  cases kind <;> exact ⟨isWord_of_isPlainWord (by decide), by decide⟩

theorem isName_has : IsName "has" := ⟨isWord_of_isPlainWord (by decide), by decide⟩

theorem IsName.startsWord {name : String} (h : IsName name) (rest : List Char) :
    ∃ c ∈ (name.toList ++ rest).head?, Token.startsWord c = true := by
  obtain ⟨c, tail, hname, -, -, -, hstart⟩ := h.1.head
  exact ⟨c, by rw [hname]; rfl, hstart⟩

theorem lexes_name {name : String} (hname : IsName name) (hrest : Token.EndsWord rest)
    (h : ∀ t : Token, t.kind = .identifier → t.text = name → Lexes rest rest' fun more => P (t :: more)) :
    Lexes (name.toList ++ rest) rest' P := by
  refine Lexes.word hname.1 hrest fun t hkind htext => h t ?_ ?_
  · rw [hkind, String.ofList_toList, if_neg hname.2]
  · rw [htext, String.ofList_toList]

theorem lexes_keyword {word : String} (hword : IsWord word.toList) (hkeyword : word ∈ Token.keywords)
    (hrest : Token.EndsWord rest)
    (h : ∀ t : Token, t.kind = .keyword → t.text = word → Lexes rest rest' fun more => P (t :: more)) :
    Lexes (word.toList ++ rest) rest' P := by
  refine Lexes.word hword hrest fun t hkind htext => h t ?_ ?_
  · rw [hkind, String.ofList_toList, if_pos hkeyword]
  · rw [htext, String.ofList_toList]

theorem isPair_blank {c : Char} (h : c ∈ ['<', '>', '+', '-', '*', '/', '%']) :
    ∀ d ∈ (' ' :: rest).head?, Token.isPair c d = false := by
  rintro d ⟨rfl⟩
  simp only [List.mem_cons, List.not_mem_nil, or_false] at h
  rcases h with rfl | rfl | rfl | rfl | rfl | rfl | rfl <;> rfl

theorem lexes_symbol (op : BinaryOp)
    (h : ∀ t : Token, t.key ∈ op.spellings → Lexes (' ' :: rest) rest' fun more => P (t :: more)) :
    Lexes (op.symbol.toList ++ ' ' :: rest) rest' P := by
  cases op with
  | or | and | eq | ne | le | ge =>
    exact Lexes.pair rfl rfl fun t ht => h t (Token.key_of_operator ht ▸ List.mem_cons_self)
  | lt | gt | add | sub | mul | div | rem =>
    exact Lexes.operator (by decide) (isPair_blank (by decide)) fun t ht =>
      h t (Token.key_of_operator ht ▸ List.mem_cons_self)
  | member =>
    refine lexes_keyword (isWord_of_isPlainWord (by decide)) (by decide) ?_ fun t hkind htext => h t ?_
    · rintro d ⟨rfl⟩
      rfl
    · simp [BinaryOp.spellings, Token.key, hkind, htext, BinaryOp.symbol]

-- ---------------------------------------------------------------------------
-- Literals
-- ---------------------------------------------------------------------------

/-- Before a boundary the lexer finds a unary phrase in the text of `e` that spells `written e`. -/
def Spelled (e : Expr) : Prop := ∀ rest, Boundary rest →
  Lexes (e.text.toList ++ rest) rest fun ts => Derives .unary ts e.written

theorem lexes_number {text : List Char} {kind : Token.Kind}
    (hnumber : Token.number (text ++ rest) = (kind, text.length)) (hkind : kind = .int ∨ kind = .float)
    (hhead : ∃ c ∈ text.head?, Text.isAsciiDigit c = true) :
    Lexes (text ++ rest) rest fun ts => Derives .unary ts (.literal kind (String.ofList text)) := by
  refine Lexes.number hnumber hhead (by rcases hkind with rfl | rfl <;> rfl) fun t ht htext => Lexes.nil ?_
  refine derives_literal ht htext ?_
  rcases hkind with rfl | rfl <;> simp [Token.isLiteral, ht]

theorem lexes_digits {text : List Char} (h : Decimal.Digits text) (hrest : Boundary rest) :
    Lexes (text ++ rest) rest fun ts => Derives .unary ts (.literal .int (String.ofList text)) :=
  lexes_number (Token.number_digits h hrest) (.inl rfl) (List.append_nil text ▸ h.head_append [])

theorem lexes_numeral (x : Double) (hrest : Boundary rest) :
    Lexes ((Decimal.numeral x).toList ++ rest) rest fun ts => Derives .unary ts (writtenNumeral x) := by
  cases hm : x.magnitude? with
  | none =>
    have hname : IsName (Decimal.numeral x) := by
      simp only [Decimal.numeral, hm]
      split
      · exact ⟨isWord_of_isPlainWord (by decide), by decide⟩
      · exact ⟨isWord_of_isPlainWord (by decide), by decide⟩
    refine lexes_name hname hrest.endsWord fun t hkind htext => Lexes.nil ?_
    simpa only [writtenNumeral, hm, Option.isNone_none, ↓reduceIte] using derives_ident hkind htext
  | some m =>
    simp only [writtenNumeral, hm, Option.isNone_some, Bool.false_eq_true, ↓reduceIte]
    rcases Decimal.numeral_shape hm with ⟨whole, fraction, htext, hwhole, hfraction, -⟩ | hdigits
    · have hpoint : '.' ∈ (Decimal.numeral x).toList := by simp [htext]
      have hlexes := lexes_number (Token.number_pointed hwhole hfraction hrest) (.inr rfl)
        (hwhole.head_append _)
      rw [if_pos hpoint]
      rwa [← htext, String.ofList_toList] at hlexes
    · have hpoint : '.' ∉ (Decimal.numeral x).toList := fun h => by cases hdigits.isDigit _ h
      have hlexes := lexes_digits hdigits hrest
      rw [if_neg hpoint]
      rwa [String.ofList_toList] at hlexes

/-- A number is lexed apart from its sign. -/
theorem lexes_signed {numeral : String} {w : Written} (negative : Bool)
    (h : Lexes (numeral.toList ++ rest) rest fun ts => Derives .unary ts w) :
    Lexes (((if negative then "-" else "") ++ numeral).toList ++ rest) rest fun ts =>
      Derives .unary ts (signed negative w) := by
  cases negative with
  | false => simpa [signed] using h
  | true =>
    have htext : ((if true then "-" else "") ++ numeral).toList ++ rest = '-' :: (numeral.toList ++ rest) := by
      simp
    rw [htext]
    refine Lexes.operator (by decide) (fun _ _ => rfl) fun t ht => h.then fun ts hts => Lexes.nil ?_
    rw [List.append_nil]
    exact .unary (Token.key_of_operator ht ▸ List.mem_cons_self) hts

theorem text_int (i : Int64) : text (.literal (.int i)) =
    (if decide (i.toInt < 0) then "-" else "") ++ toString i.toInt.natAbs := by
  rw [text, literalText, Value.text, Decimal.toString_int]
  simp

theorem text_float (x : Double) : text (.literal (.float x)) =
    (if Decimal.isSigned x then "-" else "") ++ Decimal.numeral x := by
  rw [text, literalText, Value.text, Decimal.text_eq]
  simp

theorem spelled_int (i : Int64) : Spelled (.literal (.int i)) := by
  intro rest hrest
  have hdigits := lexes_digits (Decimal.digits_toString i.toInt.natAbs) hrest
  rw [String.ofList_toList] at hdigits
  rw [text_int]
  exact lexes_signed _ hdigits

theorem spelled_float (x : Double) : Spelled (.literal (.float x)) := by
  intro rest hrest
  rw [text_float]
  exact lexes_signed _ (lexes_numeral x hrest)

theorem spelled_str (s : String) : Spelled (.literal (.str s)) :=
  fun _ _ => Lexes.string s fun _ hkind htext =>
    Lexes.nil (derives_literal hkind htext (by simp [Token.isLiteral, hkind]))

theorem spelled_keyword {v : Value} {word : String} (htext : text (.literal v) = word)
    (hwritten : writtenLiteral v = .literal .keyword word) (hword : IsWord word.toList)
    (hliteral : word ∈ ["true", "false", "null"]) : Spelled (.literal v) := by
  intro rest hrest
  have hkeyword : word ∈ Token.keywords := by
    revert hliteral
    simp [Token.keywords]
    tauto
  rw [htext, written, hwritten]
  refine lexes_keyword hword hkeyword hrest.endsWord fun t hkind ht => Lexes.nil ?_
  exact derives_literal hkind ht (by simpa [Token.isLiteral, hkind, ht] using hliteral)

theorem spelled_null : Spelled (.literal .null) :=
  spelled_keyword text_null rfl (isWord_of_isPlainWord (by decide)) (by decide)

theorem spelled_bool (b : Bool) : Spelled (.literal (.bool b)) := by
  refine spelled_keyword (text_bool b) rfl ?_ ?_
  · cases b <;> exact isWord_of_isPlainWord (by decide)
  · cases b <;> decide

-- ---------------------------------------------------------------------------
-- Postfix steps and brackets
-- ---------------------------------------------------------------------------

section
variable {e target left right condition yes no range body : Expr} {name var : String}

theorem spelled_ident (h : IsName name) : Spelled (.ident name) :=
  fun _ hrest => lexes_name h hrest.endsWord fun _ hkind htext => Lexes.nil (derives_ident hkind htext)

theorem spelled_member (h : Spelled target) (hname : IsName name) : Spelled (.member target name) := by
  intro rest hrest
  have htext : (text (.member target name)).toList ++ rest =
      (text target).toList ++ '.' :: (name.toList ++ rest) := by simp [text]
  rw [htext, written]
  refine (h _ (.point (hname.startsWord rest))).then fun ts hts => ?_
  refine Lexes.operator (by decide) (fun _ _ => rfl) fun point hpoint => ?_
  refine lexes_name hname hrest.endsWord fun field hkind hfield => Lexes.nil ?_
  exact derives_followedBy (fun _ _ hw => hfield ▸ .member hw hpoint hkind) hts

theorem spelled_index (h : Spelled target) (hkey : Spelled e) : Spelled (.index target e) := by
  intro rest hrest
  have htext : (text (.index target e)).toList ++ rest =
      (text target).toList ++ '[' :: ((text e).toList ++ ']' :: rest) := by simp [text]
  rw [htext, written]
  refine (h _ (.of_mem (by decide))).then fun ts hts => ?_
  refine Lexes.delimiter (by decide) fun opening hopen => ?_
  refine (hkey _ (.of_mem (by decide))).then fun us hus => ?_
  refine Lexes.delimiter (by decide) fun closing hclose => Lexes.nil ?_
  exact derives_followedBy (fun _ _ hw => .index hw hopen (expression_of_unary hus) hclose) hts

theorem spelled_binary (op : BinaryOp) (hleft : Spelled left) (hright : Spelled right) :
    Spelled (.binary op left right) := by
  intro rest hrest
  have htext : (text (.binary op left right)).toList ++ rest = '(' :: ((text left).toList ++
      ' ' :: (op.symbol.toList ++ ' ' :: ((text right).toList ++ ')' :: rest))) := by simp [text]
  rw [htext, written]
  refine Lexes.delimiter (by decide) fun opening hopen => ?_
  refine (hleft _ (.of_mem (by decide))).then fun ts hts => Lexes.space ?_
  refine lexes_symbol op fun sign hsign => Lexes.space ?_
  refine (hright _ (.of_mem (by decide))).then fun us hus => ?_
  refine Lexes.delimiter (by decide) fun closing hclose => Lexes.nil ?_
  have hbinary := expression_of_level (.binary (level_of_unary hts _) hsign rfl (operand_of_unary hus _))
  simpa using Derives.postfixed (.primary (.bracketed hopen hbinary hclose))

theorem spelled_ternary (hc : Spelled condition) (hy : Spelled yes) (hn : Spelled no) :
    Spelled (.ternary condition yes no) := by
  intro rest hrest
  have htext : (text (.ternary condition yes no)).toList ++ rest = '(' :: ((text condition).toList ++
      ' ' :: '?' :: ' ' :: ((text yes).toList ++ ' ' :: ':' :: ' ' :: ((text no).toList ++ ')' :: rest))) := by
    simp [text]
  rw [htext, written]
  refine Lexes.delimiter (by decide) fun opening hopen => ?_
  refine (hc _ (.of_mem (by decide))).then fun ts hts => Lexes.space ?_
  refine Lexes.operator (by decide) (fun _ _ => rfl) fun question hquestion => Lexes.space ?_
  refine (hy _ (.of_mem (by decide))).then fun us hus => Lexes.space ?_
  refine Lexes.operator (by decide) (fun _ _ => rfl) fun colon hcolon => Lexes.space ?_
  refine (hn _ (.of_mem (by decide))).then fun vs hvs => ?_
  refine Lexes.delimiter (by decide) fun closing hclose => Lexes.nil ?_
  have hternary := Derives.ternary (level_of_unary hts _) hquestion (expression_of_unary hus) hcolon
    (expression_of_unary hvs)
  simpa using Derives.postfixed (.primary (.bracketed hopen hternary hclose))

theorem spelled_comprehension {kind : Comprehension} (h : Spelled range) (hvar : IsName var)
    (hbody : Spelled body) : Spelled (.comprehension kind range var body) := by
  intro rest hrest
  have hkind := isName_comprehension kind
  have htext : (text (.comprehension kind range var body)).toList ++ rest = (text range).toList ++
      '.' :: (kind.name.toList ++ '(' :: (var.toList ++ ',' :: ' ' :: ((text body).toList ++ ')' :: rest))) := by
    simp [text]
  rw [htext, written]
  refine (h _ (.point (hkind.startsWord _))).then fun ts hts => ?_
  refine Lexes.operator (by decide) (fun _ _ => rfl) fun point hpoint => ?_
  refine lexes_name hkind (Boundary.of_mem (by decide)).endsWord fun t hname hnameText => ?_
  refine Lexes.delimiter (by decide) fun opening hopen => ?_
  refine lexes_name hvar (Boundary.of_mem (by decide)).endsWord fun v hv hvText => ?_
  refine Lexes.delimiter (by decide) fun comma hcomma => Lexes.space ?_
  refine (hbody _ (.of_mem (by decide))).then fun us hus => ?_
  refine Lexes.delimiter (by decide) fun closing hclose => Lexes.nil ?_
  let args : List Part := [([v], .ident var), (us, written body)]
  have hlisted : Listed false (args.map Prod.fst) ([v] ++ comma :: us) := .inr (.more hcomma .one)
  have hargs : ∀ a ∈ args, Derives .expression a.1 a.2 := by
    simp only [args, List.forall_mem_cons]
    exact ⟨expression_of_unary (derives_ident hv hvText), expression_of_unary hus, nofun⟩
  have hstep (ws : List Token) (w : Written) (hw : Derives .postfixed ws w) :=
    Derives.method hw hpoint hname hopen hlisted hargs hclose
  rw [hnameText] at hstep
  simpa [args] using derives_followedBy hstep hts

theorem spelled_has (h : Spelled target) : Spelled (.has target) := by
  intro rest hrest
  have htext : (text (.has target)).toList ++ rest =
      "has".toList ++ '(' :: ((text target).toList ++ ')' :: rest) := by simp [text]
  rw [htext, written]
  refine lexes_name isName_has (Boundary.of_mem (by decide)).endsWord fun t hname hnameText => ?_
  refine Lexes.delimiter (by decide) fun opening hopen => ?_
  refine (h _ (.of_mem (by decide))).then fun us hus => ?_
  refine Lexes.delimiter (by decide) fun closing hclose => Lexes.nil ?_
  let args : List Part := [(us, written target)]
  have hargs : ∀ a ∈ args, Derives .expression a.1 a.2 := by
    simp only [args, List.forall_mem_cons]
    exact ⟨expression_of_unary hus, nofun⟩
  have hlisted : Listed false (args.map Prod.fst) us := .inr .one
  exact hnameText ▸ .postfixed (.primary (.call hname hopen hlisted hargs hclose))

end

-- ---------------------------------------------------------------------------
-- Arguments and items
-- ---------------------------------------------------------------------------

section
variable {es : List Expr} {trailing : Bool} {us : List Token}

def Encloses (trailing : Bool) (ws : List Written) (us : List Token) : Prop :=
  ∃ parts : List Part, Listed trailing (parts.map Prod.fst) us ∧
    (∀ a ∈ parts, Derives .expression a.1 a.2) ∧ parts.map Prod.snd = ws

theorem Encloses.nil : Encloses trailing [] [] := ⟨[], .inl ⟨rfl, rfl⟩, nofun, rfl⟩

theorem Encloses.one (h : Derives .expression ts w) : Encloses trailing [w] ts :=
  ⟨[(ts, w)], .inr .one, fun _ ha => List.mem_singleton.mp ha ▸ h, rfl⟩

theorem Encloses.cons {comma : Token} {w' : Written} {ws : List Written} (h : Derives .expression ts w)
    (hcomma : comma.isDelimiter ",") (hrest : Encloses trailing (w' :: ws) us) :
    Encloses trailing (w :: w' :: ws) (ts ++ comma :: us) := by
  obtain ⟨parts, hlisted, hparts, hspells⟩ := hrest
  rcases hlisted with ⟨hnone, -⟩ | hseparated
  · rw [List.map_eq_nil_iff.mp hnone] at hspells
    cases hspells
  · refine ⟨(ts, w) :: parts, .inr (.more hcomma hseparated), fun a ha => ?_, congrArg (w :: ·) hspells⟩
    rcases List.mem_cons.mp ha with rfl | ha
    · exact h
    · exact hparts a ha

theorem lexes_textAll (trailing : Bool) (hrest : Boundary rest) : ∀ {es : List Expr}, (∀ e ∈ es, Spelled e) →
    Lexes ((textAll es).toList ++ rest) rest (Encloses trailing (writtenAll es))
  | [], _ => by
    rw [textAll, writtenAll]
    exact Lexes.nil .nil
  | [e], h => by
    rw [textAll, writtenAll, writtenAll]
    refine (h e List.mem_cons_self rest hrest).then fun ts hts => Lexes.nil ?_
    rw [List.append_nil]
    exact .one (expression_of_unary hts)
  | e :: e' :: es, h => by
    have htext : (textAll (e :: e' :: es)).toList ++ rest =
        (text e).toList ++ ',' :: ' ' :: ((textAll (e' :: es)).toList ++ rest) := by simp [textAll]
    rw [htext]
    refine (h e List.mem_cons_self _ (.of_mem (by decide))).then fun ts hts => ?_
    refine Lexes.delimiter (by decide) fun comma hcomma => Lexes.space ?_
    have hmore := lexes_textAll trailing hrest fun e he => h e (List.mem_cons_of_mem _ he)
    refine hmore.then fun us hus => Lexes.nil ?_
    rw [List.append_nil]
    simp only [writtenAll] at hus ⊢
    exact .cons (expression_of_unary hts) hcomma hus

theorem spelled_call {name : String} (hname : IsName name) (h : ∀ e ∈ es, Spelled e) :
    Spelled (.call name es) := by
  intro rest hrest
  have htext : (text (.call name es)).toList ++ rest =
      name.toList ++ '(' :: ((textAll es).toList ++ ')' :: rest) := by simp [text]
  rw [htext, written]
  refine lexes_name hname (Boundary.of_mem (by decide)).endsWord fun t hkind hnameText => ?_
  refine Lexes.delimiter (by decide) fun opening hopen => ?_
  refine (lexes_textAll false (.of_mem (by decide)) h).then fun us hus => ?_
  refine Lexes.delimiter (by decide) fun closing hclose => Lexes.nil ?_
  obtain ⟨args, hlisted, hargs, hspells⟩ := hus
  exact hnameText ▸ hspells ▸ .postfixed (.primary (.call hkind hopen hlisted hargs hclose))

theorem spelled_list (h : ∀ e ∈ es, Spelled e) : Spelled (.list es) := by
  intro rest hrest
  have htext : (text (.list es)).toList ++ rest = '[' :: ((textAll es).toList ++ ']' :: rest) := by simp [text]
  rw [htext, written]
  refine Lexes.delimiter (by decide) fun opening hopen => ?_
  refine (lexes_textAll true (.of_mem (by decide)) h).then fun us hus => ?_
  refine Lexes.delimiter (by decide) fun closing hclose => Lexes.nil ?_
  obtain ⟨items, hlisted, hitems, hspells⟩ := hus
  exact hspells ▸ .postfixed (.primary (.list hopen hlisted hitems hclose))

end

-- ---------------------------------------------------------------------------
-- Trees
-- ---------------------------------------------------------------------------

def Opens (text : String) : Prop := ∃ c ∈ text.toList.head?, c ≠ '='

theorem Opens.append {s : String} (h : Opens s) (t : String) : Opens (s ++ t) := by
  obtain ⟨c, hc, hne⟩ := h
  obtain ⟨tail, htail⟩ := List.head?_eq_some_iff.mp hc
  exact ⟨c, by simp [htail], hne⟩

theorem IsName.opens {name : String} (h : IsName name) : Opens name := by
  obtain ⟨c, hc, hstart⟩ := h.startsWord []
  refine ⟨c, by simpa using hc, ?_⟩
  rintro rfl
  cases hstart

theorem opens_of_cons {c : Char} {s : String} {tail : List Char} (hs : s.toList = c :: tail) (hc : c ≠ '=') :
    Opens s := ⟨c, by simp [hs], hc⟩

theorem opens_signed {negative : Bool} {s : String} (h : Opens s) :
    Opens ((if negative then "-" else "") ++ s) := by
  cases negative with
  | false => simpa using h
  | true => exact opens_of_cons (String.toList_append ..) (by decide)

theorem opens_digits {s : String} (h : Decimal.Digits s.toList) : Opens s := by
  obtain ⟨c, tail, hs⟩ := List.exists_cons_of_ne_nil h.ne_nil
  refine opens_of_cons hs ?_
  rintro rfl
  cases h.isDigit '=' (by simp [hs])

theorem opens_numeral (x : Double) : Opens (Decimal.numeral x) := by
  cases hm : x.magnitude? with
  | none =>
    simp only [Decimal.numeral, hm]
    split <;> exact opens_of_cons rfl (by decide)
  | some m =>
    rcases Decimal.numeral_shape hm with ⟨whole, fraction, htext, hwhole, -⟩ | hdigits
    · obtain ⟨c, hc, hdigit⟩ := hwhole.head_append ('.' :: fraction)
      refine ⟨c, htext ▸ hc, ?_⟩
      rintro rfl
      cases hdigit
    · exact opens_digits hdigits

theorem opens_text {e : Expr} (h : Formed e) : Opens e.text := by
  induction h with
  | null =>
    rw [text_null]
    exact opens_of_cons rfl (by decide)
  | @bool b =>
    rw [text_bool]
    cases b <;> exact opens_of_cons rfl (by decide)
  | int =>
    rw [text_int]
    exact opens_signed (opens_digits (Decimal.digits_toString _))
  | float =>
    rw [text_float]
    exact opens_signed (opens_numeral _)
  | str =>
    rw [text, literalText, Text.quoted]
    exact opens_of_cons (String.toList_ofList ..) (by decide)
  | ident h => rw [text]; exact h.opens
  | member _ _ ih | index _ _ ih | comprehension _ _ _ ih =>
    rw [text]
    simpa only [String.append_assoc] using ih.append _
  | call hname =>
    rw [text]
    simpa only [String.append_assoc] using hname.opens.append _
  | has =>
    rw [text]
    have hopen : Opens "has(" := ⟨'h', rfl, by decide⟩
    simpa only [String.append_assoc] using hopen.append _
  | not =>
    rw [text]
    exact Opens.append ⟨'!', rfl, by decide⟩ _
  | negate =>
    rw [text]
    exact Opens.append ⟨'-', rfl, by decide⟩ _
  | binary | ternary =>
    have hopen : Opens "(" := ⟨'(', rfl, by decide⟩
    rw [text]
    simpa only [String.append_assoc] using hopen.append _
  | list =>
    have hopen : Opens "[" := ⟨'[', rfl, by decide⟩
    rw [text]
    simpa only [String.append_assoc] using hopen.append _

theorem spelled_not {e : Expr} (h : Spelled e) (hopens : Opens e.text) : Spelled (.unary .not e) := by
  intro rest hrest
  have htext : (text (.unary .not e)).toList ++ rest = '!' :: ((text e).toList ++ rest) := by simp [text]
  rw [htext, written]
  have hpair : ∀ d ∈ ((text e).toList ++ rest).head?, Token.isPair '!' d = false := by
    obtain ⟨c, hc, hne⟩ := hopens
    obtain ⟨tail, htail⟩ := List.head?_eq_some_iff.mp hc
    rw [htail]
    rintro d ⟨rfl⟩
    simp [Token.isPair, hne]
  refine Lexes.operator (by decide) hpair fun sign hsign => ?_
  refine (h rest hrest).then fun ts hts => Lexes.nil ?_
  rw [List.append_nil]
  exact .unary (Token.key_of_operator hsign ▸ List.mem_cons_self) hts

theorem spelled_negate {e : Expr} (h : Spelled e) : Spelled (.unary .negate e) := by
  intro rest hrest
  have htext : (text (.unary .negate e)).toList ++ rest = '-' :: ((text e).toList ++ rest) := by simp [text]
  rw [htext, written]
  refine Lexes.operator (by decide) (fun _ _ => rfl) fun sign hsign => ?_
  refine (h rest hrest).then fun ts hts => Lexes.nil ?_
  rw [List.append_nil]
  exact .unary (Token.key_of_operator hsign ▸ List.mem_cons_self) hts

theorem spelled_of_formed {e : Expr} (h : Formed e) : Spelled e := by
  induction h with
  | null => exact spelled_null
  | bool => exact spelled_bool _
  | int => exact spelled_int _
  | float => exact spelled_float _
  | str => exact spelled_str _
  | ident h => exact spelled_ident h
  | member _ hfield ih => exact spelled_member ih hfield
  | index _ _ ih ihkey => exact spelled_index ih ihkey
  | call hname _ _ ih => exact spelled_call hname ih
  | not h ih => exact spelled_not ih (opens_text h)
  | negate _ _ ih => exact spelled_negate ih
  | binary _ _ ihleft ihright => exact spelled_binary _ ihleft ihright
  | ternary _ _ _ ihc ihy ihn => exact spelled_ternary ihc ihy ihn
  | list _ ih => exact spelled_list ih
  | comprehension _ hvar _ ih ihbody => exact spelled_comprehension ih hvar ihbody
  | has _ _ ih => exact spelled_has ih

/-- The text of a formed tree is a text of the language. -/
theorem derives_text {e : Expr} (h : Formed e) : Derives .expression (Token.strict e.text) e.written :=
  expression_of_unary (spelled_of_formed h [] .nil).whole

end Expr

end TradingRules
