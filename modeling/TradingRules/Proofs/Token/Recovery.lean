import TradingRules.Token.Lexer

/-!
# Lexing with and without recovery

The two lexers find the same tokens up to the first fault. The strict one ends there
(`lexFrom_strict`), so on a text without faults they agree (`strict_eq_recovering`).
-/

namespace TradingRules.Token

def upToFault : List Token → List Token
  | [] => []
  | t :: rest => if t.isFault then [t] else t :: upToFault rest

theorem upToFault_of_no_fault {tokens : List Token} (h : ∀ t ∈ tokens, t.isFault = false) :
    upToFault tokens = tokens := by
  induction tokens with
  | nil => rfl
  | cons t rest ih =>
    have ht := h t List.mem_cons_self
    simp [upToFault, ht, ih fun u hu => h u (List.mem_cons_of_mem _ hu)]

/-- They are the tokens without a fault at the front and the token behind them, if there is one. -/
theorem upToFault_eq (tokens : List Token) :
    upToFault tokens = tokens.takeWhile (fun t => !t.isFault) ++ (tokens.find? isFault).toList := by
  induction tokens with
  | nil => rfl
  | cons t rest ih => cases ht : t.isFault <;> simp [upToFault, ht, ih]

theorem Kind.ends_strict {k : Kind} {text : List Char} {p : Position} :
    k.ends false = (⟨k, String.ofList text, p⟩ : Token).isFault := by
  cases k with
  | fault f => cases f <;> rfl
  | _ => rfl

theorem Kind.ends_strict_of_recovering {k : Kind} (h : k.ends true = true) :
    k.ends false = true := by
  cases k with
  | fault f => cases f <;> rfl
  | _ => cases h

theorem lexFrom_strict (passed : Nat) (p : Position) (text : List Char) :
    lexFrom false passed p text = upToFault (lexFrom true passed p text) := by
  fun_induction lexFrom true passed p text with
  | case1 => simp [lexFrom, upToFault]
  | case2 passed p c rest ih => simpa [lexFrom] using ih
  | case3 p c rest hblank ih => simpa [lexFrom, hblank] using ih
  | case4 p c rest hblank found token hends =>
    have hstrict := Kind.ends_strict_of_recovering hends
    have hfault : token.isFault = true := Kind.ends_strict ▸ hstrict
    rw [lexFrom, if_neg hblank, if_pos hstrict, upToFault, if_pos hfault]
  | case5 p c rest hblank found token hends ih =>
    have hiff : found.kind.ends false = token.isFault := Kind.ends_strict
    by_cases hstrict : found.kind.ends false = true
    · have hfault : token.isFault = true := hiff ▸ hstrict
      rw [lexFrom, if_neg hblank, if_pos hstrict, upToFault, if_pos hfault]
    · have hfault : ¬token.isFault = true := hiff ▸ hstrict
      rw [lexFrom, if_neg hblank, if_neg hstrict, upToFault, if_neg hfault, ih]

theorem strict_eq_recovering {source : String}
    (h : ∀ t ∈ recovering source, t.isFault = false) : strict source = recovering source := by
  rw [strict, lexFrom_strict]
  exact upToFault_of_no_fault h

end TradingRules.Token
