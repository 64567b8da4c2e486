import Mathlib.Data.List.Basic
import Mathlib.Data.List.Induction

set_option autoImplicit false

namespace CcspCommon.Shared

section Tokens

variable {A : Type} [DecidableEq A] (separator : A)

def tokensFrom : List A → List A → List (List A)
  | current, [] => if current = [] then [] else [current]
  | current, c :: rest =>
    if c = separator then
      if current = [] then tokensFrom [] rest else current :: tokensFrom [] rest
    else tokensFrom (current ++ [c]) rest

def tokens (text : List A) : List (List A) := tokensFrom separator [] text

def joinTokens : List (List A) → List A
  | [] => []
  | [token] => token
  | token :: next :: rest => token ++ separator :: joinTokens (next :: rest)

def IsToken (token : List A) : Prop := token ≠ [] ∧ separator ∉ token

instance (token : List A) : Decidable (IsToken separator token) := inferInstanceAs (Decidable (_ ∧ _))

theorem tokensFrom_isToken {current : List A} (free : separator ∉ current) (text : List A) :
    ∀ token ∈ tokensFrom separator current text, IsToken separator token := by
  induction text generalizing current with
  | nil =>
    intro token member
    simp only [tokensFrom] at member
    split_ifs at member with empty
    · cases member
    · obtain rfl := List.mem_singleton.mp member
      exact ⟨empty, free⟩
  | cons c rest ih =>
    intro token member
    simp only [tokensFrom] at member
    split_ifs at member with isSeparator empty
    · exact ih List.not_mem_nil token member
    · rcases List.mem_cons.mp member with rfl | later
      · exact ⟨empty, free⟩
      · exact ih List.not_mem_nil token later
    · refine ih ?_ token member
      simp [free, Ne.symm isSeparator]

theorem tokens_isToken (text : List A) : ∀ token ∈ tokens separator text, IsToken separator token :=
  tokensFrom_isToken separator List.not_mem_nil text

theorem tokensFrom_ne_nil {current : List A} (nonempty : current ≠ []) (text : List A) :
    tokensFrom separator current text ≠ [] := by
  induction text generalizing current with
  | nil => simp [tokensFrom, nonempty]
  | cons c rest ih =>
    simp only [tokensFrom, if_neg nonempty]
    split_ifs
    · simp
    · exact ih (by simp)

theorem tokensFrom_append {token : List A} (free : separator ∉ token) (current rest : List A) :
    tokensFrom separator current (token ++ rest) = tokensFrom separator (current ++ token) rest := by
  induction token generalizing current with
  | nil => simp
  | cons c token ih =>
    simp only [List.mem_cons, not_or] at free
    simp only [List.cons_append, tokensFrom, if_neg (Ne.symm free.1)]
    rw [ih free.2]
    simp

theorem tokens_joinTokens {list : List (List A)} (proper : ∀ token ∈ list, IsToken separator token)
    (trailing : Bool) :
    tokens separator (joinTokens separator list ++ if trailing then [separator] else []) = list := by
  induction list with
  | nil => cases trailing <;> simp [tokens, joinTokens, tokensFrom]
  | cons token rest ih =>
    obtain ⟨nonempty, free⟩ := proper token List.mem_cons_self
    have later := ih fun other member => proper other (List.mem_cons_of_mem token member)
    cases rest with
    | nil =>
      simp only [tokens, joinTokens]
      rw [tokensFrom_append separator free, List.nil_append]
      cases trailing <;> simp [tokensFrom, nonempty]
    | cons next more =>
      simp only [tokens] at later
      simp only [tokens, joinTokens, List.append_assoc, List.cons_append]
      rw [tokensFrom_append separator free, List.nil_append]
      simp only [tokensFrom, if_true, if_neg nonempty]
      rw [later]

theorem tokens_joinTokens_self {list : List (List A)} (proper : ∀ token ∈ list, IsToken separator token) :
    tokens separator (joinTokens separator list) = list := by
  simpa using tokens_joinTokens separator proper false

theorem joinTokens_injective {list other : List (List A)}
    (proper : ∀ token ∈ list, IsToken separator token) (also : ∀ token ∈ other, IsToken separator token)
    (same : joinTokens separator list = joinTokens separator other) : list = other := by
  rw [← tokens_joinTokens_self separator proper, same, tokens_joinTokens_self separator also]

omit [DecidableEq A] in
theorem joinTokens_append (list other : List (List A)) :
    joinTokens separator (list ++ other) =
      if list = [] then joinTokens separator other
      else if other = [] then joinTokens separator list
      else joinTokens separator list ++ separator :: joinTokens separator other := by
  induction list with
  | nil => simp
  | cons token rest ih =>
    cases rest with
    | nil => cases other <;> simp [joinTokens]
    | cons next more =>
      simp only [List.cons_append, joinTokens] at ih ⊢
      rw [ih]
      cases other <;> simp

omit [DecidableEq A] in
theorem length_joinTokens_append (list other : List (List A)) :
    (joinTokens separator list).length ≤ (joinTokens separator (list ++ other)).length := by
  rw [joinTokens_append]
  split_ifs with first second
  · simp [first, joinTokens]
  · exact Nat.le_refl _
  · simp

omit [DecidableEq A] in
theorem length_le_joinTokens {list : List (List A)} {token : List A} (member : token ∈ list) :
    token.length ≤ (joinTokens separator list).length := by
  induction list with
  | nil => cases member
  | cons head rest ih =>
    cases rest with
    | nil =>
      obtain rfl := List.mem_singleton.mp member
      simp [joinTokens]
    | cons next more =>
      simp only [joinTokens, List.length_append, List.length_cons]
      rcases List.mem_cons.mp member with rfl | later
      · omega
      · have := ih later
        omega

omit [DecidableEq A] in
theorem length_joinTokens_le {list : List (List A)} {most : Nat} (short : ∀ token ∈ list, token.length < most) :
    (joinTokens separator list).length ≤ most * list.length := by
  induction list with
  | nil => exact Nat.zero_le _
  | cons first rest ih =>
    rw [List.forall_mem_cons] at short
    have later := ih short.2
    rw [List.length_cons, Nat.mul_add, Nat.mul_one]
    cases rest with
    | nil =>
      rw [joinTokens]
      omega
    | cons next more =>
      rw [joinTokens, List.length_append, List.length_cons]
      omega

theorem length_joinTokens_tokensFrom (current text : List A) :
    (joinTokens separator (tokensFrom separator current text)).length ≤ current.length + text.length := by
  induction text generalizing current with
  | nil =>
    simp only [tokensFrom]
    split_ifs with empty <;> simp [joinTokens]
  | cons c rest ih =>
    simp only [tokensFrom, List.length_cons]
    split_ifs with isSeparator empty
    · have := ih []
      simp only [List.length_nil] at this
      omega
    · have bound := ih []
      have split := joinTokens_append separator [current] (tokensFrom separator [] rest)
      simp only [List.cons_append, List.nil_append, reduceCtorEq, if_false, joinTokens] at split
      rw [split]
      simp only [List.length_nil] at bound
      split_ifs
      · omega
      · simp only [List.length_append, List.length_cons]
        omega
    · have := ih (current ++ [c])
      simp only [List.length_append, List.length_singleton] at this
      omega

theorem length_joinTokens_tokens (text : List A) :
    (joinTokens separator (tokens separator text)).length ≤ text.length := by
  simpa [tokens] using length_joinTokens_tokensFrom separator [] text

omit [DecidableEq A] in
theorem length_le_length_joinTokens {list : List (List A)} (proper : ∀ token ∈ list, IsToken separator token) :
    list.length ≤ (joinTokens separator list).length := by
  induction list with
  | nil => simp
  | cons token rest ih =>
    obtain ⟨here, later⟩ := List.forall_mem_cons.mp proper
    have some := List.length_pos_iff.mpr here.1
    have further := ih later
    cases rest with
    | nil => exact some
    | cons next more =>
      simp only [joinTokens, List.length_append, List.length_cons] at further ⊢
      omega

theorem length_tokens_le (text : List A) : (tokens separator text).length ≤ text.length :=
  Nat.le_trans (length_le_length_joinTokens separator (tokens_isToken separator text))
    (length_joinTokens_tokens separator text)

end Tokens

end CcspCommon.Shared
