import Aifluxon.Auth.Tokens

/-!
# Redacted errors

`sanitize_provider_error` of `http.rs`.

* `prefix_separated`, `infix_separated` : a part of a text without a separator stands on one side of it;
* `sanitizeProviderError` : the secrets are replaced one after another, then the text is cut;
* `IsSecret`, `infix_replaceFrom` : a replacement brings no secret together, and leaves none of its own;
* `sanitizeProviderError_secrets` : no secret is in the text that is given out.
-/

namespace Aifluxon

/-! ## Parts of a text -/

section Parts
variable {α : Type*} {part before after : List α} {b : α}

theorem prefix_separated (hb : b ∉ part) (h : part <+: before ++ b :: after) : part <+: before := by
  induction before generalizing part with
  | nil =>
    rcases List.prefix_cons_iff.1 h with rfl | ⟨rest, rfl, -⟩
    · exact List.nil_prefix
    · exact absurd List.mem_cons_self hb
  | cons a before ih =>
    rw [List.cons_append] at h
    rcases List.prefix_cons_iff.1 h with rfl | ⟨rest, rfl, hrest⟩
    · exact List.nil_prefix
    · have hbefore := ih (fun hmem => hb (List.mem_cons_of_mem a hmem)) hrest
      exact List.prefix_cons_iff.2 (.inr ⟨rest, rfl, hbefore⟩)

theorem infix_separated (hb : b ∉ part) (h : part <:+: before ++ b :: after) : part <:+: before ∨ part <:+: after := by
  induction before with
  | nil =>
    rcases List.infix_cons_iff.1 h with hfront | hafter
    · exact .inl (@prefix_separated _ _ [] _ _ hb hfront).isInfix
    · exact .inr hafter
  | cons a before ih =>
    rw [List.cons_append] at h
    rcases List.infix_cons_iff.1 h with hfront | hrest
    · exact .inl (@prefix_separated _ _ (a :: before) _ _ hb hfront).isInfix
    · exact (ih hrest).imp_left List.infix_cons

/-- A part that does not end in `b` stands before a `b` at the end. -/
theorem infix_before_last (hb : part.getLast? ≠ some b) (h : part <:+: before ++ [b]) : part <:+: before := by
  rcases List.infix_concat_iff.1 h with hlast | hbefore
  · rcases List.suffix_concat_iff.1 hlast with rfl | ⟨rest, rfl, -⟩
    · exact List.nil_infix
    · exact absurd List.getLast?_concat hb
  · exact hbefore

end Parts

/-! ## The text of an error -/

def maxProviderErrorChars : Nat := 1200

def sanitizeProviderError (message : String) (secrets : List String) : String :=
  let message := (secrets.filter (· ≠ "")).foldl (fun message secret => replaceAll message secret "[redacted]") message
  if maxProviderErrorChars < message.toList.length then
    String.ofList (message.toList.take maxProviderErrorChars) ++ "..."
  else message

/-- A secret that no mark and no ellipsis is part of. -/
structure IsSecret (secret : List Char) : Prop where
  long : 8 < secret.length
  noOpening : '[' ∉ secret
  noClosing : ']' ∉ secret
  noDot : secret.getLast? ≠ some '.'

namespace IsSecret
variable {secret needle text : List Char}

/-- The word of the mark is too short, and its brackets are not part of a secret. -/
theorem behind_mark (hsecret : IsSecret secret) (h : secret <:+: "[redacted]".toList ++ text) : secret <:+: text := by
  have hshort (word : List Char) (hword : word.length ≤ 8) : ¬ secret <:+: word := by
    intro hinfix
    have hle := hinfix.length_le
    have hlong := hsecret.long
    omega
  have hmark : "[redacted]".toList ++ text = [] ++ '[' :: ("redacted".toList ++ ']' :: text) := rfl
  rw [hmark] at h
  have hword := (infix_separated hsecret.noOpening h).resolve_left (hshort [] (Nat.zero_le _))
  exact (infix_separated hsecret.noClosing hword).resolve_left (hshort _ (by decide))

/-- Without a bracket, the beginning of a text with marks is that of the text. -/
theorem prefix_replaceFrom {front : List Char} (hfront : '[' ∉ front)
    (h : front <+: replaceFrom needle "[redacted]".toList 0 text) : front <+: text := by
  induction text generalizing front with
  | nil => exact h
  | cons c text ih =>
    unfold replaceFrom at h
    split at h
    · have hempty := @prefix_separated _ _ [] _ _ hfront h
      rw [List.prefix_nil.1 hempty]
      exact List.nil_prefix
    · rcases List.prefix_cons_iff.1 h with rfl | ⟨rest, rfl, hrest⟩
      · exact List.nil_prefix
      · have hrest := ih (fun hmem => hfront (List.mem_cons_of_mem c hmem)) hrest
        exact List.prefix_cons_iff.2 (.inr ⟨rest, rfl, hrest⟩)

/-- A secret in a text with marks is in the text, and is not what the marks stand for. -/
theorem infix_replaceFrom (hsecret : IsSecret secret) (skip : Nat)
    (h : secret <:+: replaceFrom needle "[redacted]".toList skip text) : secret <:+: text ∧ secret ≠ needle := by
  induction text generalizing skip with
  | nil =>
    have hlong := hsecret.long
    unfold replaceFrom at h
    rw [List.infix_nil.1 h] at hlong
    exact absurd hlong (Nat.not_lt_zero 8)
  | cons c text ih =>
    rcases skip with _ | skip
    · unfold replaceFrom at h
      split at h
      · have hrest := ih _ (hsecret.behind_mark h)
        exact ⟨List.infix_cons hrest.1, hrest.2⟩
      · rename_i hneedle
        rcases List.infix_cons_iff.1 h with hfront | hrest
        · have hhere : secret <+: c :: text := by
            rcases List.prefix_cons_iff.1 hfront with rfl | ⟨rest, rfl, hrest⟩
            · exact List.nil_prefix
            · have hopening := fun hmem => hsecret.noOpening (List.mem_cons_of_mem c hmem)
              exact List.prefix_cons_iff.2 (.inr ⟨rest, rfl, prefix_replaceFrom hopening hrest⟩)
          exact ⟨hhere.isInfix, fun heq => hneedle (heq ▸ hhere)⟩
        · have hrest := ih 0 hrest
          exact ⟨List.infix_cons hrest.1, hrest.2⟩
    · have hrest := ih skip h
      exact ⟨List.infix_cons hrest.1, hrest.2⟩

theorem infix_replaceAll (hsecret : IsSecret secret) {message needle : String}
    (h : secret <:+: (replaceAll message needle "[redacted]").toList) :
    secret <:+: message.toList ∧ secret ≠ needle.toList := by
  unfold replaceAll at h
  rw [String.toList_ofList] at h
  exact hsecret.infix_replaceFrom 0 h

theorem infix_foldl (hsecret : IsSecret secret) {needles : List String} {message : String}
    (h : secret <:+: (needles.foldl (fun message needle => replaceAll message needle "[redacted]") message).toList) :
    secret <:+: message.toList ∧ ∀ needle ∈ needles, secret ≠ needle.toList := by
  induction needles generalizing message with
  | nil => exact ⟨h, nofun⟩
  | cons needle needles ih =>
    have hrest := ih h
    have hthis := hsecret.infix_replaceAll hrest.1
    exact ⟨hthis.1, List.forall_mem_cons.2 ⟨hthis.2, hrest.2⟩⟩

/-- Neither the cut nor the ellipsis brings a secret together. -/
theorem infix_ellipsis (hsecret : IsSecret secret) (n : Nat) (h : secret <:+: text.take n ++ "...".toList) :
    secret <:+: text := by
  have hdots : text.take n ++ "...".toList = text.take n ++ ['.'] ++ ['.'] ++ ['.'] := by
    simp
  rw [hdots] at h
  have htake := infix_before_last hsecret.noDot (infix_before_last hsecret.noDot (infix_before_last hsecret.noDot h))
  exact htake.trans (List.take_prefix n text).isInfix

end IsSecret

/-- **No secret is in the text that is given out.** -/
theorem sanitizeProviderError_secrets (message : String) (secrets : List String)
    (hsecrets : ∀ secret ∈ secrets, IsSecret secret.toList) :
    ∀ secret ∈ secrets, ¬ textContains (sanitizeProviderError message secrets) secret := by
  intro secret hmem hcontains
  have hsecret := hsecrets secret hmem
  have hne : secret ≠ "" := by
    intro hempty
    have hlong := hsecret.long
    rw [hempty] at hlong
    exact absurd hlong (by decide)
  have hinfix : secret.toList <:+: (sanitizeProviderError message secrets).toList := of_decide_eq_true hcontains
  have hfold : secret.toList <:+: ((secrets.filter (· ≠ "")).foldl
      (fun message needle => replaceAll message needle "[redacted]") message).toList := by
    unfold sanitizeProviderError at hinfix
    dsimp only at hinfix
    split at hinfix
    · rw [String.toList_append, String.toList_ofList] at hinfix
      exact hsecret.infix_ellipsis _ hinfix
    · exact hinfix
  have hkept : secret ∈ secrets.filter (· ≠ "") := List.mem_filter.2 ⟨hmem, by simpa using hne⟩
  exact (hsecret.infix_foldl hfold).2 secret hkept rfl

/-- Two secrets that share some characters, and more text behind them. -/
def tokenError (rest : List Char) : String := String.ofList ("token-abcdef-secret: ".toList ++ rest)

theorem tokenError_toList (rest : List Char) : (tokenError rest).toList = "token-abcdef-secret: ".toList ++ rest :=
  String.toList_ofList

theorem tokenError_contains {before secret after : List Char} (rest : List Char)
    (h : "token-abcdef-secret: ".toList = before ++ secret ++ after) : secret <:+: (tokenError rest).toList := by
  refine ⟨before, after ++ rest, ?_⟩
  rw [tokenError_toList, h]
  simp only [List.append_assoc]

theorem tokenError_length (rest : List Char) : rest.length < (tokenError rest).toList.length := by
  have hword : 0 < "token-abcdef-secret: ".toList.length := by decide +kernel
  rw [tokenError_toList, List.length_append]
  omega

theorem sanitizeProviderError_token : ∃ rest : List Char,
    maxProviderErrorChars < (tokenError rest).toList.length ∧
    textContains (tokenError rest) "token-abcdef" ∧ textContains (tokenError rest) "abcdef-secret" ∧
    ∀ secret ∈ ["token-abcdef", "abcdef-secret"],
      ¬ textContains (sanitizeProviderError (tokenError rest) ["token-abcdef", "abcdef-secret"]) secret := by
  have hfirst : "token-abcdef-secret: ".toList = [] ++ "token-abcdef".toList ++ "-secret: ".toList := by decide +kernel
  have hsecond : "token-abcdef-secret: ".toList = "token-".toList ++ "abcdef-secret".toList ++ ": ".toList := by
    decide +kernel
  have hsecrets : ∀ secret ∈ ["token-abcdef", "abcdef-secret"], IsSecret secret.toList := by
    intro secret hmem
    rcases List.mem_pair.1 hmem with rfl | rfl
    · exact ⟨by decide, by decide, by decide, by decide⟩
    · exact ⟨by decide, by decide, by decide, by decide⟩
  obtain ⟨rest, hrest⟩ : ∃ rest : List Char, rest = List.replicate maxProviderErrorChars 'x' := ⟨_, rfl⟩
  have hlength := tokenError_length rest
  rw [hrest, List.length_replicate, ← hrest] at hlength
  exact ⟨rest, hlength, decide_eq_true (tokenError_contains rest hfirst), decide_eq_true (tokenError_contains rest hsecond),
    sanitizeProviderError_secrets (tokenError rest) _ hsecrets⟩

end Aifluxon
