import TradingRules.Expr.Compiled
import TradingRules.Proofs.Expr.Derivation
import TradingRules.Proofs.Token.Places
import TradingRules.Proofs.Token.Spelling

/-!
# The shape of a compiled tree

What compiles is formed (`formed_of_compile`): its names are words and no keywords, a number has its
sign in itself, and what the parser reads as a comprehension is no call.
-/

namespace TradingRules.Expr

open Grammar
open Token (IsWord keywords)

def IsName (name : String) : Prop := IsWord name.toList ∧ name ∉ keywords

def isNumber : Expr → Bool
  | .literal v => v.isNumber
  | _ => false

inductive Comprehends : String → List Expr → Prop
  | intro (h : Comprehension.ofName? name = some kind) : Comprehends name [range, .ident var, body]

/-- What a tree keeps of the text that was read. -/
inductive Formed : Expr → Prop
  | null : Formed (.literal .null)
  | bool : Formed (.literal (.bool b))
  | int (h : i ≠ Int64.minValue) : Formed (.literal (.int i))
  | float : Formed (.literal (.float x))
  | str : Formed (.literal (.str s))
  | ident (h : IsName name) : Formed (.ident name)
  | member (h : Formed target) (hfield : IsName field) : Formed (.member target field)
  | index (h : Formed target) (hkey : Formed key) : Formed (.index target key)
  | call (hname : IsName name) (hform : ¬Comprehends name args) (h : ∀ a ∈ args, Formed a) :
      Formed (.call name args)
  | not (h : Formed e) : Formed (.unary .not e)
  | negate (h : Formed e) (hnumber : e.isNumber = false) : Formed (.unary .negate e)
  | binary (hleft : Formed left) (hright : Formed right) : Formed (.binary op left right)
  | ternary (hc : Formed c) (hy : Formed y) (hn : Formed n) : Formed (.ternary c y n)
  | list (h : ∀ a ∈ items, Formed a) : Formed (.list items)
  | comprehension (h : Formed range) (hvar : IsName var) (hbody : Formed body) :
      Formed (.comprehension kind range var body)
  | has (h : Formed target) (hpath : target.path?.isSome = true) : Formed (.has target)

-- ---------------------------------------------------------------------------
-- Lexed tokens
-- ---------------------------------------------------------------------------

/-- What the lexer guarantees of a token of a name or an integer. -/
structure Lexed (t : Token) : Prop where
  name : t.kind = .identifier → IsName t.text
  int : t.kind = .int → ∃ c rest, t.text.toList = c :: rest ∧ Text.isAsciiDigit c = true

theorem isWord_takeWhile {c : Char} (rest : List Char) (hblank : Text.isBlank c = false)
    (hdigit : Text.isAsciiDigit c = false) (hquote : ¬(c = '"' ∨ c = '\''))
    (hstart : Token.startsWord c = true) : IsWord ((c :: rest).takeWhile Token.continuesWord) := by
  have hcontinues := Token.startsWord_continues hstart
  refine ⟨⟨c, rest.takeWhile Token.continuesWord, ?_, hblank, hdigit, hquote, hstart⟩, fun d hd => ?_⟩
  · rw [List.takeWhile_cons, if_pos hcontinues]
  · exact List.all_eq_true.mp (List.all_takeWhile) d hd

theorem lexed_lexeme {c : Char} {rest : List Char} (hblank : Text.isBlank c = false) (p : Position) :
    Lexed ⟨(Token.lexeme c rest).kind, String.ofList (Token.lexeme c rest).text, p⟩ := by
  unfold Token.lexeme
  simp only
  split
  · rename_i hdigit
    obtain ⟨hkind, hdigits, -⟩ := Token.number_spec (c :: rest)
    have hlength := Nat.lt_of_lt_of_le (Token.run_pos hdigit rest) hdigits
    have hname : (Token.number (c :: rest)).1 ≠ .identifier := by
      intro hname
      simp [hname] at hkind
    refine ⟨fun h => absurd h hname, fun _ => ?_⟩
    obtain ⟨n, hn⟩ := Nat.exists_eq_succ_of_ne_zero hlength.ne'
    exact ⟨c, rest.take n, by simp [hn], hdigit⟩
  · rename_i hdigit
    split
    · split <;> exact ⟨nofun, nofun⟩
    · rename_i hquote
      split
      · rename_i hstart
        have hword := isWord_takeWhile rest hblank (by simpa using hdigit) hquote hstart
        have htake : (c :: rest).take (Token.run Token.continuesWord (c :: rest)) =
            (c :: rest).takeWhile Token.continuesWord :=
          (List.prefix_iff_eq_take.mp (List.takeWhile_prefix _)).symm
        rw [htake]
        split
        · exact ⟨nofun, nofun⟩
        · rename_i hkeyword
          exact ⟨fun _ => ⟨by simpa using hword, hkeyword⟩, nofun⟩
      · split
        · exact ⟨nofun, nofun⟩
        · have hsymbol : Token.symbolKind c ≠ .identifier ∧ Token.symbolKind c ≠ .int := by
            unfold Token.symbolKind
            split
            · exact ⟨nofun, nofun⟩
            · split <;> exact ⟨nofun, nofun⟩
          exact ⟨fun h => absurd h hsymbol.1, fun h => absurd h hsymbol.2⟩

theorem lexed_of_mem_lexFrom {recover : Bool} {passed : Nat} {p : Position} {text : List Char} {t : Token}
    (h : t ∈ Token.lexFrom recover passed p text) : Lexed t := by
  fun_induction Token.lexFrom recover passed p text with
  | case1 => cases h
  | case2 passed p c rest ih => exact ih h
  | case3 p c rest hblank ih => exact ih h
  | case4 p c rest hblank found token hends =>
    rw [List.mem_singleton.mp h]
    exact lexed_lexeme (by simpa using hblank) p
  | case5 p c rest hblank found token hends ih =>
    rcases List.mem_cons.mp h with rfl | h
    · exact lexed_lexeme (by simpa using hblank) p
    · exact ih h

-- ---------------------------------------------------------------------------
-- Literals
-- ---------------------------------------------------------------------------

theorem readInt64?_ne_minValue {c : Char} {rest : List Char} {i : Int64} (h : Text.isAsciiDigit c = true)
    (hread : Decimal.readInt64? (c :: rest) = some i) : i ≠ Int64.minValue := by
  obtain ⟨n, hn, hi⟩ := Option.bind_eq_some_iff.mp hread
  have hnonneg : 0 ≤ n := by
    simp only [Decimal.readInt?, Decimal.splitSign_of_isDigit h, Bool.false_eq_true, ↓reduceIte] at hn
    obtain ⟨_, hk, rfl⟩ := Option.map_eq_some_iff.mp hn
    obtain ⟨k, -, hcast⟩ := Option.bind_eq_some_iff.mp hk
    cases hcast
    exact Int.natCast_nonneg k
  simp only [Decimal.int64?, Option.ite_none_right_eq_some, Option.some.injEq] at hi
  obtain ⟨hrange, rfl⟩ := hi
  have hpower : (Decimal.twoTo 63 : Int) = 2 ^ 63 := rfl
  simp only [Decimal.inInt64, hpower, Bool.and_eq_true, decide_eq_true_eq] at hrange
  intro hmin
  have hint := congrArg Int64.toInt hmin
  rw [Int64.toInt_ofInt_of_le hrange.1 hrange.2, Int64.toInt_minValue] at hint
  omega

theorem formed_literal {t : Token} (ht : Lexed t) {v : Value} (h : Written.literalValue? t.kind t.text = some v) :
    Formed (.literal v) := by
  unfold Written.literalValue? at h
  split at h
  · rename_i hkind
    obtain ⟨i, hread, rfl⟩ := Option.map_eq_some_iff.mp h
    obtain ⟨c, rest, htext, hdigit⟩ := ht.int hkind
    rw [htext] at hread
    exact .int (readInt64?_ne_minValue hdigit hread)
  · obtain ⟨x, -, rfl⟩ := Option.map_eq_some_iff.mp h
    exact .float
  · cases h; exact .str
  · cases h; exact .bool
  · cases h; exact .bool
  · cases h; exact .null
  · cases h

theorem formed_negated (h : Formed e) : Formed (negated e) := by
  unfold negated
  split
  · exact .float
  · split
    · rename_i i hmin
      cases h
      contradiction
    · rename_i i hmin
      refine .int fun hneg => hmin ?_
      rw [← Int64.neg_neg (a := i), hneg]
      rfl
  · rename_i hfloat hint
    refine .negate h ?_
    -- The other literals are no numbers.
    unfold isNumber
    split
    · rename_i v
      cases v with
      | int i => exact absurd rfl (hint i)
      | float x => exact absurd rfl (hfloat x)
      | _ => rfl
    · rfl

theorem formed_ofUnary (op : UnaryOp) (h : Formed e) : Formed (Written.ofUnary op e) := by
  cases op with
  | not => exact .not h
  | negate => exact formed_negated h

-- ---------------------------------------------------------------------------
-- Trees
-- ---------------------------------------------------------------------------

theorem formed_of_trees? {ws : List Written} {items : List Expr} (h : Written.trees? ws = some items)
    (hws : ∀ w ∈ ws, ∀ e, w.tree? = some e → Formed e) : ∀ e ∈ items, Formed e := by
  induction ws generalizing items with
  | nil =>
    cases h
    exact nofun
  | cons w ws ih =>
    simp only [Written.trees?, Option.bind_eq_some_iff, Option.map_eq_some_iff] at h
    obtain ⟨e, htree, later, hlater, rfl⟩ := h
    intro e' he'
    rcases List.mem_cons.mp he' with rfl | he'
    · exact hws w List.mem_cons_self _ htree
    · exact ih hlater (fun v hv => hws v (List.mem_cons_of_mem w hv)) e' he'

theorem formed_ofFunctionForm {name : String} {args : List Expr} (hname : IsName name)
    (hargs : ∀ a ∈ args, Formed a) (h : ofFunctionForm name args = .ok e) : Formed e := by
  unfold ofFunctionForm at h
  split at h
  · split at h
    · split at h
      · rename_i hpath
        cases h
        exact .has (hargs _ List.mem_cons_self) hpath
      · cases h
    · cases h
  · split at h
    · rename_i var body _
      cases h
      have hvar := hargs (.ident var) (by simp)
      cases hvar with
      | ident hvar => exact .comprehension (hargs _ (by simp)) hvar (hargs _ (by simp))
    · rename_i hform
      cases h
      refine .call hname ?_ hargs
      rintro ⟨hkind⟩
      exact hform _ _ _ _ hkind rfl

theorem formed_ofMethodForm {name : String} {target : Expr} {args : List Expr} (hname : IsName name)
    (htarget : Formed target) (hargs : ∀ a ∈ args, Formed a) : Formed (ofMethodForm target name args) := by
  unfold ofMethodForm
  split
  · rename_i var body _
    have hvar := hargs (.ident var) (by simp)
    cases hvar with
    | ident hvar => exact .comprehension htarget hvar (hargs _ (by simp))
  · rename_i hform
    refine .call hname ?_ fun a ha => ?_
    · rintro ⟨hkind⟩
      exact hform _ _ _ hkind rfl
    · rcases List.mem_cons.mp ha with rfl | ha
      · exact htarget
      · exact hargs a ha

theorem mem_of_mem_part {trailing : Bool} {parts : List (List Token)} {us ts : List Token} {t : Token}
    (h : Separated trailing parts us) (hts : ts ∈ parts) (ht : t ∈ ts) : t ∈ us := by
  induction h with
  | one => exact List.mem_singleton.mp hts ▸ ht
  | last => exact List.mem_append_left _ (List.mem_singleton.mp hts ▸ ht)
  | more _ _ ih =>
    rcases List.mem_cons.mp hts with rfl | hts
    · exact List.mem_append_left _ ht
    · exact List.mem_append_right _ (List.mem_cons_of_mem _ (ih hts))

def Forms (ts : List Token) (w : Written) : Prop :=
  (∀ t ∈ ts, Lexed t) → ∀ e, w.tree? = some e → Formed e

theorem formed_of_listed {trailing : Bool} {parts : List Part} {us : List Token} {items : List Expr}
    (hlisted : Listed trailing (parts.map Prod.fst) us) (hlexed : ∀ t ∈ us, Lexed t)
    (hparts : ∀ a ∈ parts, Forms a.1 a.2) (h : Written.trees? (parts.map Prod.snd) = some items) :
    ∀ e ∈ items, Formed e := by
  refine formed_of_trees? h fun w hw => ?_
  obtain ⟨a, ha, rfl⟩ := List.mem_map.mp hw
  have hmem := List.mem_map_of_mem (f := Prod.fst) ha
  rcases hlisted with ⟨hnone, -⟩ | hseparated
  · rw [hnone] at hmem
    cases hmem
  · exact hparts a ha fun t ht => hlexed t (mem_of_mem_part hseparated hmem ht)

theorem formed_of_derives {s : Nonterminal} {ts : List Token} {w : Written} (h : Derives s ts w)
    : Forms ts w := by
  induction h with
  | plain _ ih | operand _ ih | postfixed _ ih | primary _ ih => exact ih
  | ternary _ _ _ _ _ ihc ihy ihn =>
    intro hlexed e htree
    simp only [Written.tree?, Option.bind_eq_some_iff, Option.map_eq_some_iff] at htree
    obtain ⟨c, hc, y, hy, n, hn, rfl⟩ := htree
    exact .ternary (ihc (fun t ht => hlexed t (by simp [ht])) c hc)
      (ihy (fun t ht => hlexed t (by simp [ht])) y hy) (ihn (fun t ht => hlexed t (by simp [ht])) n hn)
  | binary _ _ _ _ ihleft ihright =>
    intro hlexed e htree
    simp only [Written.tree?, Option.bind_eq_some_iff, Option.map_eq_some_iff] at htree
    obtain ⟨l, hl, r, hr, rfl⟩ := htree
    exact .binary (ihleft (fun t ht => hlexed t (by simp [ht])) l hl)
      (ihright (fun t ht => hlexed t (by simp [ht])) r hr)
  | unary _ _ ih =>
    intro hlexed e htree
    obtain ⟨operand, hoperand, rfl⟩ := Option.map_eq_some_iff.mp htree
    exact formed_ofUnary _ (ih (fun t ht => hlexed t (by simp [ht])) operand hoperand)
  | member _ _ hfield ih =>
    intro hlexed e htree
    obtain ⟨target, htarget, rfl⟩ := Option.map_eq_some_iff.mp htree
    exact .member (ih (fun t ht => hlexed t (by simp [ht])) target htarget) ((hlexed _ (by simp)).name hfield)
  | method _ _ hname _ hlisted _ _ ih ihargs =>
    intro hlexed e htree
    simp only [Written.tree?, Option.bind_eq_some_iff, Option.map_eq_some_iff] at htree
    obtain ⟨target, htarget, args, hargs, rfl⟩ := htree
    exact formed_ofMethodForm ((hlexed _ (by simp)).name hname)
      (ih (fun t ht => hlexed t (by simp [ht])) target htarget)
      (formed_of_listed hlisted (fun t ht => hlexed t (by simp [ht])) ihargs hargs)
  | index _ _ _ _ ih ihkey =>
    intro hlexed e htree
    simp only [Written.tree?, Option.bind_eq_some_iff, Option.map_eq_some_iff] at htree
    obtain ⟨target, htarget, key, hkey, rfl⟩ := htree
    exact .index (ih (fun t ht => hlexed t (by simp [ht])) target htarget)
      (ihkey (fun t ht => hlexed t (by simp [ht])) key hkey)
  | literal ht =>
    intro hlexed e htree
    obtain ⟨v, hv, rfl⟩ := Option.map_eq_some_iff.mp htree
    exact formed_literal (hlexed _ (by simp)) hv
  | ident ht =>
    intro hlexed e htree
    cases htree
    exact .ident ((hlexed _ (by simp)).name ht)
  | call hname _ hlisted _ _ ihargs =>
    intro hlexed e htree
    simp only [Written.tree?, Option.bind_eq_some_iff] at htree
    obtain ⟨args, hargs, hform⟩ := htree
    rw [Except.toOption_eq_some] at hform
    exact formed_ofFunctionForm ((hlexed _ (by simp)).name hname)
      (formed_of_listed hlisted (fun t ht => hlexed t (by simp [ht])) ihargs hargs) hform
  | bracketed _ _ _ ih => exact fun hlexed => ih fun t ht => hlexed t (by simp [ht])
  | list _ hlisted _ _ ihitems =>
    intro hlexed e htree
    obtain ⟨items, hitems, rfl⟩ := Option.map_eq_some_iff.mp htree
    exact .list (formed_of_listed hlisted (fun t ht => hlexed t (by simp [ht])) ihitems hitems)

theorem parse_eq_ok_iff {source : String} : parse source = .ok e ↔ ofTokens (Token.strict source) = .ok e :=
  Except.mapError_eq_ok

theorem formed_of_parse {source : String} (h : parse source = .ok e) : Formed e := by
  obtain ⟨w, hw, htree⟩ := derives_of_ofTokens (parse_eq_ok_iff.mp h)
  exact formed_of_derives hw (fun t ht => lexed_of_mem_lexFrom ht) e htree

end TradingRules.Expr
