import TradingRules.Builtin.Library
import TradingRules.Proofs.Dict
import TradingRules.Proofs.Expr.Acceptance
import TradingRules.Proofs.Expr.Reprint
import TradingRules.Proofs.Token.Joined

/-!
# Calls in method form

`target.f(args)` and `f(target, args)` have the same tree for every name but that of the presence test,
which is one in function form only (`methodForm_agrees_iff`). What stands at each place is read as if it
stood alone, since the grammar looks at the kinds and texts of tokens (`Derives.of_keys`).
-/

namespace TradingRules

open Grammar
open Token (Boundary Lexes)

-- ---------------------------------------------------------------------------
-- Tokens at other places
-- ---------------------------------------------------------------------------

section
variable {t u : Token} {ts us : List Token}

theorem Token.isOperator_of_key (h : t.key = u.key) (text : String) : t.isOperator text = u.isOperator text := by
  obtain ⟨hkind, htext⟩ := Prod.mk.inj h
  rw [isOperator, isOperator, hkind, htext]

theorem Token.isDelimiter_of_key (h : t.key = u.key) (text : String) :
    t.isDelimiter text = u.isDelimiter text := by
  obtain ⟨hkind, htext⟩ := Prod.mk.inj h
  rw [isDelimiter, isDelimiter, hkind, htext]

theorem Token.isLiteral_of_key (h : t.key = u.key) : t.isLiteral = u.isLiteral := by
  obtain ⟨hkind, htext⟩ := Prod.mk.inj h
  rw [isLiteral, isLiteral, hkind, htext]

namespace Grammar

def Moved (parts parts' : List Part) : Prop :=
  List.Forall₂ (fun a a' => a'.1.map Token.key = a.1.map Token.key ∧ a'.2 = a.2) parts parts'

theorem Moved.writtens {parts parts' : List Part} (h : Moved parts parts') :
    parts'.map Prod.snd = parts.map Prod.snd := by
  induction h with
  | nil => rfl
  | cons ha _ ih => rw [List.map_cons, List.map_cons, ha.2, ih]

theorem separated_of_keys {trailing : Bool} {parts : List Part} {us us' : List Token}
    (h : Separated trailing (parts.map Prod.fst) us) (hkeys : us'.map Token.key = us.map Token.key) :
    ∃ parts', Separated trailing (parts'.map Prod.fst) us' ∧ Moved parts parts' := by
  generalize hfirst : parts.map Prod.fst = texts at h
  induction h generalizing parts us' with
  | one =>
    obtain ⟨a, rfl, rfl⟩ := List.map_eq_singleton_iff.mp hfirst
    exact ⟨[(us', a.2)], .one, .cons ⟨hkeys, rfl⟩ .nil⟩
  | last hcomma hallowed =>
    obtain ⟨a, rfl, rfl⟩ := List.map_eq_singleton_iff.mp hfirst
    simp only [List.map_append, List.map_eq_append_iff, List.map_cons, List.map_nil, List.map_eq_cons_iff,
      List.map_eq_nil_iff] at hkeys
    obtain ⟨vs, _, rfl, hvs, comma', _, rfl, hcomma', rfl⟩ := hkeys
    rw [← Token.isDelimiter_of_key hcomma'] at hcomma
    exact ⟨[(vs, a.2)], .last hcomma hallowed, .cons ⟨hvs, rfl⟩ .nil⟩
  | more hcomma _ ih =>
    obtain ⟨a, parts, rfl, rfl, hlater⟩ := List.map_eq_cons_iff.mp hfirst
    simp only [List.map_append, List.map_eq_append_iff, List.map_cons, List.map_eq_cons_iff] at hkeys
    obtain ⟨vs, _, rfl, hvs, comma', ws, rfl, hcomma', hws⟩ := hkeys
    rw [← Token.isDelimiter_of_key hcomma'] at hcomma
    obtain ⟨parts', hseparated, hmoved⟩ := ih hws hlater
    exact ⟨(vs, a.2) :: parts', .more hcomma hseparated, .cons ⟨hvs, rfl⟩ hmoved⟩

theorem listed_of_keys {trailing : Bool} {parts : List Part} {us us' : List Token}
    (h : Listed trailing (parts.map Prod.fst) us) (hkeys : us'.map Token.key = us.map Token.key) :
    ∃ parts', Listed trailing (parts'.map Prod.fst) us' ∧ Moved parts parts' := by
  rcases h with ⟨hnone, rfl⟩ | hseparated
  · rw [List.map_eq_nil_iff.mp hnone, List.map_eq_nil_iff.mp hkeys]
    exact ⟨[], .inl ⟨rfl, rfl⟩, .nil⟩
  · obtain ⟨parts', hseparated, hmoved⟩ := separated_of_keys hseparated hkeys
    exact ⟨parts', .inr hseparated, hmoved⟩

theorem Moved.derives {parts parts' : List Part} (h : Moved parts parts')
    (hparts : ∀ a ∈ parts, ∀ us : List Token, us.map Token.key = a.1.map Token.key → Derives .expression us a.2) :
    ∀ a' ∈ parts', Derives .expression a'.1 a'.2 := by
  induction h with
  | nil => exact nofun
  | cons ha _ ih =>
    obtain ⟨hfirst, hlater⟩ := List.forall_mem_cons.mp hparts
    exact List.forall_mem_cons.mpr ⟨ha.2 ▸ hfirst _ ha.1, ih hlater⟩

theorem enclosed_of_keys {opening closing : Token} {left right : String} (hopen : opening.isDelimiter left = true)
    (hclose : closing.isDelimiter right = true)
    (hkeys : us.map Token.key = (opening :: (ts ++ [closing])).map Token.key) :
    ∃ opening' us' closing', us = opening' :: (us' ++ [closing']) ∧ opening'.isDelimiter left = true ∧
      us'.map Token.key = ts.map Token.key ∧ closing'.isDelimiter right = true := by
  obtain ⟨opening', vs, rfl, hopen', hvs⟩ := List.map_eq_cons_iff.mp hkeys
  rw [List.map_append] at hvs
  obtain ⟨us', ws, rfl, hus', hws⟩ := List.map_eq_append_iff.mp hvs
  obtain ⟨closing', rfl, hclose'⟩ := List.map_eq_singleton_iff.mp hws
  exact ⟨opening', us', closing', rfl, (Token.isDelimiter_of_key hopen' left).trans hopen, hus',
    (Token.isDelimiter_of_key hclose' right).trans hclose⟩

/-- A phrase is derived from tokens of the same kinds and texts. -/
theorem Derives.of_keys {s : Nonterminal} {w : Written} (h : Derives s ts w)
    (hkeys : us.map Token.key = ts.map Token.key) : Derives s us w := by
  induction h generalizing us with
  | plain _ ih => exact .plain (ih hkeys)
  | operand _ ih => exact .operand (ih hkeys)
  | postfixed _ ih => exact .postfixed (ih hkeys)
  | primary _ ih => exact .primary (ih hkeys)
  | ternary _ hquestion _ hcolon _ ihc ihy ihn =>
    simp only [List.map_append, List.map_eq_append_iff, List.map_cons, List.map_eq_cons_iff] at hkeys
    obtain ⟨cs, _, rfl, hcs, question', _, rfl, hquestion', ys, _, rfl, hys, colon', ns, rfl, hcolon', hns⟩ := hkeys
    rw [← Token.isOperator_of_key hquestion'] at hquestion
    rw [← Token.isOperator_of_key hcolon'] at hcolon
    exact .ternary (ihc hcs) hquestion (ihy hys) hcolon (ihn hns)
  | binary _ hop hlevel _ ihleft ihright =>
    simp only [List.map_append, List.map_eq_append_iff, List.map_cons, List.map_eq_cons_iff] at hkeys
    obtain ⟨ls, _, rfl, hls, sign', rs, rfl, hsign', hrs⟩ := hkeys
    exact .binary (ihleft hls) (hsign' ▸ hop) hlevel (ihright hrs)
  | unary hop _ ih =>
    obtain ⟨sign', vs, rfl, hsign', hvs⟩ := List.map_eq_cons_iff.mp hkeys
    exact .unary (hsign' ▸ hop) (ih hvs)
  | member _ hpoint hfield ih =>
    simp only [List.map_append, List.map_eq_append_iff, List.map_cons, List.map_eq_cons_iff, List.map_nil,
      List.map_eq_nil_iff] at hkeys
    obtain ⟨vs, _, rfl, hvs, point', _, rfl, hpoint', field', _, rfl, hfield', rfl⟩ := hkeys
    rw [← Token.isOperator_of_key hpoint'] at hpoint
    obtain ⟨hkind, htext⟩ := Prod.mk.inj hfield'
    exact htext ▸ .member (ih hvs) hpoint (hkind.trans hfield)
  | method _ hpoint hname hopen hlisted _ hclose ih ihargs =>
    rw [List.map_append, List.map_eq_append_iff] at hkeys
    obtain ⟨vs, _, rfl, hvs, hkeys⟩ := hkeys
    obtain ⟨point', _, rfl, hpoint', hkeys⟩ := List.map_eq_cons_iff.mp hkeys
    obtain ⟨name', _, rfl, hname', hkeys⟩ := List.map_eq_cons_iff.mp hkeys
    obtain ⟨opening', inside, closing', rfl, hopen', hinside, hclose'⟩ := enclosed_of_keys hopen hclose hkeys
    rw [← Token.isOperator_of_key hpoint'] at hpoint
    obtain ⟨hkind, htext⟩ := Prod.mk.inj hname'
    obtain ⟨args', hlisted', hmoved⟩ := listed_of_keys hlisted hinside
    rw [← htext, ← hmoved.writtens]
    exact .method (ih hvs) hpoint (hkind.trans hname) hopen' hlisted'
      (hmoved.derives fun a ha _ hus => ihargs a ha hus) hclose'
  | index _ hopen _ hclose ih ihkey =>
    rw [List.map_append, List.map_eq_append_iff] at hkeys
    obtain ⟨vs, _, rfl, hvs, hkeys⟩ := hkeys
    obtain ⟨opening', inside, closing', rfl, hopen', hinside, hclose'⟩ := enclosed_of_keys hopen hclose hkeys
    exact .index (ih hvs) hopen' (ihkey hinside) hclose'
  | literal ht =>
    obtain ⟨t', rfl, ht'⟩ := List.map_eq_singleton_iff.mp hkeys
    obtain ⟨hkind, htext⟩ := Prod.mk.inj ht'
    rw [← Token.isLiteral_of_key ht'] at ht
    exact hkind ▸ htext ▸ .literal ht
  | ident ht =>
    obtain ⟨t', rfl, ht'⟩ := List.map_eq_singleton_iff.mp hkeys
    obtain ⟨hkind, htext⟩ := Prod.mk.inj ht'
    exact htext ▸ .ident (hkind.trans ht)
  | call hname hopen hlisted _ hclose ihargs =>
    obtain ⟨name', _, rfl, hname', hkeys⟩ := List.map_eq_cons_iff.mp hkeys
    obtain ⟨opening', inside, closing', rfl, hopen', hinside, hclose'⟩ := enclosed_of_keys hopen hclose hkeys
    obtain ⟨hkind, htext⟩ := Prod.mk.inj hname'
    obtain ⟨args', hlisted', hmoved⟩ := listed_of_keys hlisted hinside
    rw [← htext, ← hmoved.writtens]
    exact .call (hkind.trans hname) hopen' hlisted' (hmoved.derives fun a ha _ hus => ihargs a ha hus) hclose'
  | bracketed hopen _ hclose ih =>
    obtain ⟨opening', inside, closing', rfl, hopen', hinside, hclose'⟩ := enclosed_of_keys hopen hclose hkeys
    exact .bracketed hopen' (ih hinside) hclose'
  | list hopen hlisted _ hclose ihitems =>
    obtain ⟨opening', inside, closing', rfl, hopen', hinside, hclose'⟩ := enclosed_of_keys hopen hclose hkeys
    obtain ⟨items', hlisted', hmoved⟩ := listed_of_keys hlisted hinside
    rw [← hmoved.writtens]
    exact .list hopen' hlisted' (hmoved.derives fun a ha _ hus => ihitems a ha hus) hclose'

end Grammar

end

-- ---------------------------------------------------------------------------
-- The two forms
-- ---------------------------------------------------------------------------

namespace Expr

def functionForm (name : String) (args : List String) : String := name ++ "(" ++ ",".intercalate args ++ ")"

def methodForm (target name : String) (args : List String) : String := target ++ "." ++ functionForm name args

section
variable {rest : List Char} {source target name : String} {args : List String} {w : Written} {ws : List Written}

theorem lexes_derived {s : Nonterminal} (h : Derives s (Token.strict source) w) (hrest : Boundary rest) :
    Lexes (source.toList ++ rest) rest fun ts => Derives s ts w := by
  have hfaults : ∀ t ∈ Token.strict source, t.isFault = false := by
    intro t ht
    rw [Token.isFault, faultless_of_derives h t ht]
    rfl
  refine Lexes.faultless hfaults hrest fun ts hkeys => Lexes.nil ?_
  rw [List.append_nil]
  exact h.of_keys hkeys

def SpellAll (args : List String) (ws : List Written) : Prop :=
  List.Forall₂ (fun arg w => Derives .expression (Token.strict arg) w) args ws

theorem exists_spellAll (h : ∀ arg ∈ args, ∃ w, Derives .expression (Token.strict arg) w) :
    ∃ ws, SpellAll args ws := by
  induction args with
  | nil => exact ⟨[], .nil⟩
  | cons arg args ih =>
    obtain ⟨⟨w, hw⟩, hlater⟩ := List.forall_mem_cons.mp h
    obtain ⟨ws, hws⟩ := ih hlater
    exact ⟨w :: ws, .cons hw hws⟩

theorem lexes_arguments (hrest : Boundary rest) : ∀ {args : List String} {ws : List Written}, SpellAll args ws →
    Lexes ((",".intercalate args).toList ++ rest) rest (Encloses false ws)
  | [], _, .nil => Lexes.nil .nil
  | [arg], _, .cons hw .nil => by
    have htext : (",".intercalate [arg]).toList ++ rest = arg.toList ++ rest := by simp
    rw [htext]
    refine (lexes_derived hw hrest).then fun ts hts => Lexes.nil ?_
    rw [List.append_nil]
    exact .one hts
  | arg :: arg' :: args, _, .cons hw (.cons hw' hws) => by
    have htext : (",".intercalate (arg :: arg' :: args)).toList ++ rest =
        arg.toList ++ ',' :: ((",".intercalate (arg' :: args)).toList ++ rest) := by simp
    rw [htext]
    refine (lexes_derived hw (.of_mem (by decide))).then fun ts hts => ?_
    refine Lexes.delimiter (by decide) fun comma hcomma => ?_
    refine (lexes_arguments hrest (.cons hw' hws)).then fun us hus => Lexes.nil ?_
    rw [List.append_nil]
    exact .cons hts hcomma hus

theorem lexes_functionForm {P : List Token → Prop} (hname : IsName name) (hargs : SpellAll args ws)
    (h : ∀ (t opening closing : Token) (us : List Token), t.kind = .identifier → t.text = name →
      opening.isDelimiter "(" = true → Encloses false ws us → closing.isDelimiter ")" = true →
        P (t :: opening :: (us ++ [closing]))) :
    Lexes ((functionForm name args).toList ++ rest) rest P := by
  have htext : (functionForm name args).toList ++ rest =
      name.toList ++ '(' :: ((",".intercalate args).toList ++ ')' :: rest) := by simp [functionForm]
  rw [htext]
  refine lexes_name hname (Boundary.of_mem (by decide)).endsWord fun t hkind hnameText => ?_
  refine Lexes.delimiter (by decide) fun opening hopen => ?_
  refine (lexes_arguments (.of_mem (by decide)) hargs).then fun us hus => ?_
  refine Lexes.delimiter (by decide) fun closing hclose => Lexes.nil ?_
  exact h t opening closing us hkind hnameText hopen hus hclose

theorem derives_functionForm (hname : IsName name) (hargs : SpellAll args ws) :
    Derives .expression (Token.strict (functionForm name args)) (.call name ws) := by
  refine Lexes.whole (P := fun ts => Derives .expression ts (.call name ws)) ?_
  refine lexes_functionForm hname hargs fun t opening closing us hkind htext hopen hus hclose => ?_
  obtain ⟨parts, hlisted, hparts, rfl⟩ := hus
  exact htext ▸ expression_of_unary (.postfixed (.primary (.call hkind hopen hlisted hparts hclose)))

theorem derives_methodForm (htarget : Derives .postfixed (Token.strict target) w) (hname : IsName name)
    (hargs : SpellAll args ws) :
    Derives .expression (Token.strict (methodForm target name args)) (.method w name ws) := by
  refine Lexes.whole (P := fun ts => Derives .expression ts (.method w name ws)) ?_
  have htext : (methodForm target name args).toList ++ [] =
      target.toList ++ '.' :: ((functionForm name args).toList ++ []) := by simp [methodForm]
  have hpoint : Boundary ('.' :: ((functionForm name args).toList ++ [])) := by
    have hstarts := hname.startsWord ('(' :: ((",".intercalate args).toList ++ [')']))
    simpa [functionForm] using Boundary.point hstarts
  rw [htext]
  refine (lexes_derived htarget hpoint).then fun ts hts => ?_
  refine Lexes.operator (by decide) (fun _ _ => rfl) fun point hpoint => ?_
  refine lexes_functionForm hname hargs fun t opening closing us hkind htext hopen hus hclose => ?_
  obtain ⟨parts, hlisted, hparts, rfl⟩ := hus
  exact htext ▸ expression_of_unary (.postfixed (.method hts hpoint hkind hopen hlisted hparts hclose))

-- ---------------------------------------------------------------------------
-- Their trees
-- ---------------------------------------------------------------------------

theorem compile_of_derives (h : Derives .expression (Token.strict source) w)
    (hlimit : ∀ e, compile source = .error e → e.cause ≠ .nestedTooDeeply) :
    (compile source).toOption.map Compiled.expr = w.tree? := by
  cases htree : w.tree? with
  | none =>
    cases hcompile : compile source with
    | error e => rfl
    | ok c =>
      obtain ⟨e, hparse, -⟩ := compile_eq_ok_iff.mp hcompile
      have hsome := ((parse_eq_ok_iff_of_derives h).mp hparse).1
      rw [htree] at hsome
      cases hsome
  | some e =>
    have hwithin : w.levels none 1 ≤ maxDepth := by
      refine Nat.le_of_not_lt fun hbeyond => ?_
      obtain ⟨place, herror⟩ := (ofTokens_of_derives h htree).2 hbeyond
      refine hlimit ⟨.nestedTooDeeply, place.getD (Position.endOf source)⟩ ?_ rfl
      rw [compile, parse, ofTokensOf, herror]
      rfl
    have hparse := (parse_eq_ok_iff_of_derives h).mpr ⟨htree, hwithin⟩
    rw [compile, hparse]
    rfl

/-- The names of comprehensions are decided alike: in function form the range comes first. -/
theorem ofFunctionForm_eq_ofMethodForm (hname : name ≠ "has") (e : Expr) (es : List Expr) :
    ofFunctionForm name (e :: es) = .ok (ofMethodForm e name es) := by
  unfold ofFunctionForm ofMethodForm
  rw [if_neg hname]
  cases hkind : Comprehension.ofName? name with
  | none => rfl
  | some kind =>
    cases es with
    | nil => rfl
    | cons first es => cases first <;> rcases es with _ | ⟨body, _ | _⟩ <;> rfl

/-- In method form `has` is a call, in function form a test of a path or nothing. -/
theorem ofFunctionForm_has_ne (e : Expr) (es : List Expr) :
    (ofFunctionForm "has" (e :: es)).toOption ≠ some (ofMethodForm e "has" es) := by
  have hmethod : ofMethodForm e "has" es = .call "has" (e :: es) := rfl
  rw [hmethod]
  unfold ofFunctionForm
  rw [if_pos rfl]
  cases es with
  | nil => cases htest : e.path?.isSome <;> simp [htest, Except.toOption]
  | cons => simp [Except.toOption]

end

end Expr

/-- Both sources compile to one tree, or neither compiles. -/
def SameTree (source source' : String) : Prop :=
  (∃ c c', compile source = .ok c ∧ compile source' = .ok c' ∧ c.expr = c'.expr) ∨
    (∃ e, compile source = .error e) ∧ ∃ e, compile source' = .error e

theorem sameTree_iff {source source' : String} : SameTree source source' ↔
    (compile source).toOption.map Compiled.expr = (compile source').toOption.map Compiled.expr := by
  unfold SameTree
  cases compile source <;> cases compile source' <;> simp [Except.toOption]

/-- The method form of a call and its function form have one tree or none, unless the name is that of the
presence test and the method form compiles. -/
theorem methodForm_sameTree_iff (target name : String) (args : List String) (hname : Expr.IsName name)
    (htarget : ∃ w, Derives .postfixed (Token.strict target) w)
    (hargs : ∀ arg ∈ args, ∃ w, Derives .expression (Token.strict arg) w)
    (hmethod : ∀ e, compile (Expr.methodForm target name args) = .error e → e.cause ≠ .nestedTooDeeply)
    (hfunction : ∀ e, compile (Expr.functionForm name (target :: args)) = .error e → e.cause ≠ .nestedTooDeeply) :
    SameTree (Expr.methodForm target name args) (Expr.functionForm name (target :: args)) ↔
      ¬(name = "has" ∧ ∃ c, compile (Expr.methodForm target name args) = .ok c) := by
  obtain ⟨w, hw⟩ := htarget
  obtain ⟨ws, hws⟩ := Expr.exists_spellAll hargs
  have hall : Expr.SpellAll (target :: args) (w :: ws) := .cons (Expr.expression_of_unary (.postfixed hw)) hws
  have hm := Expr.compile_of_derives (Expr.derives_methodForm hw hname hws) hmethod
  have hf := Expr.compile_of_derives (Expr.derives_functionForm hname hall) hfunction
  have hcompiles : (∃ c, compile (Expr.methodForm target name args) = .ok c) ↔
      ∃ e, (Written.method w name ws).tree? = some e := by
    rw [← hm]
    cases compile (Expr.methodForm target name args) <;> simp [Except.toOption]
  rw [sameTree_iff, hm, hf, hcompiles]
  simp only [Written.tree?, Written.trees?]
  -- Without a tree for the target or an argument there is none for either form.
  cases w.tree? with
  | none => simp
  | some e =>
    cases Written.trees? ws with
    | none => simp
    | some es =>
      by_cases hhas : name = "has"
      · subst hhas
        simpa using (Expr.ofFunctionForm_has_ne e es).symm
      · simp [hhas, Expr.ofFunctionForm_eq_ofMethodForm hhas, Except.toOption]

theorem postfixed_path : Derives .postfixed (Token.strict "trade.side") (.member (.ident "trade") "side") := by
  have htokens : Token.strict "trade.side" = [⟨.identifier, "trade", ⟨1, 1, 0⟩⟩] ++
      [⟨.operator, ".", ⟨1, 6, 5⟩⟩, ⟨.identifier, "side", ⟨1, 7, 6⟩⟩] := by decide +kernel
  rw [htokens]
  exact .member (.primary (.ident (t := ⟨.identifier, "trade", ⟨1, 1, 0⟩⟩) rfl)) rfl rfl

theorem methodForm_sameTree_contains :
    SameTree (Expr.methodForm "trade.side" "contains" [" \"lo\" + 'ng'"])
        (Expr.functionForm "contains" ["trade.side", " \"lo\" + 'ng'"]) ∧
      ∃ c, compile "trade.side.contains( \"lo\" + 'ng')" = .ok c := by
  have hargument : (Expr.ofTokens (Token.strict " \"lo\" + 'ng'")).isOk = true := by decide +kernel
  have hmethod : (compile (Expr.methodForm "trade.side" "contains" [" \"lo\" + 'ng'"])).isOk = true := by
    decide +kernel
  have hfunction : (compile (Expr.functionForm "contains" ["trade.side", " \"lo\" + 'ng'"])).isOk = true := by
    decide +kernel
  obtain ⟨e, hargument⟩ := Except.isOk_iff.mp hargument
  obtain ⟨w, hw, -⟩ := Expr.derives_of_ofTokens hargument
  obtain ⟨c, hmethod⟩ := Except.isOk_iff.mp hmethod
  obtain ⟨c', hfunction⟩ := Except.isOk_iff.mp hfunction
  have hiff := methodForm_sameTree_iff "trade.side" "contains" [" \"lo\" + 'ng'"]
    ⟨Expr.isWord_of_isPlainWord (by decide), by decide⟩ ⟨_, postfixed_path⟩
    (List.forall_mem_singleton.mpr ⟨w, hw⟩) (by simp [hmethod]) (by simp [hfunction])
  refine ⟨hiff.mpr fun h => absurd h.1 (by decide), c, ?_⟩
  rw [← hmethod]
  rfl

/-- The presence test is registered, and its method form is a call of it. -/
theorem has_in_methodForm :
    Dict.contains Registry.builtins "has" = true ∧ Expr.IsName "has" ∧
      Derives .postfixed (Token.strict "trade.side") (.member (.ident "trade") "side") ∧
      (compile (Expr.methodForm "trade.side" "has" [])).toOption.map Compiled.expr =
        some (.call "has" [.member (.ident "trade") "side"]) ∧
      (compile (Expr.functionForm "has" ["trade.side"])).toOption.map Compiled.expr =
        some (.has (.member (.ident "trade") "side")) ∧
      ¬SameTree (Expr.methodForm "trade.side" "has" []) (Expr.functionForm "has" ["trade.side"]) := by
  have hregistered : Dict.contains Registry.builtins "has" = true := by
    rw [Dict.contains, Registry.builtins, Dict.find?_ofList]
    decide +kernel
  have hmethod : (compile (Expr.methodForm "trade.side" "has" [])).isOk = true := by decide +kernel
  have hfunction : (compile (Expr.functionForm "has" ["trade.side"])).isOk = true := by decide +kernel
  obtain ⟨c, hmethod⟩ := Except.isOk_iff.mp hmethod
  obtain ⟨c', hfunction⟩ := Except.isOk_iff.mp hfunction
  have hargs : Expr.SpellAll ["trade.side"] [.member (.ident "trade") "side"] :=
    .cons (Expr.expression_of_unary (.postfixed postfixed_path)) .nil
  have hm := Expr.compile_of_derives (Expr.derives_methodForm postfixed_path Expr.isName_has .nil)
    (by simp [hmethod])
  have hf := Expr.compile_of_derives (Expr.derives_functionForm Expr.isName_has hargs) (by simp [hfunction])
  refine ⟨hregistered, Expr.isName_has, postfixed_path, hm, hf, ?_⟩
  rw [sameTree_iff, hm, hf]
  exact nofun

end TradingRules
