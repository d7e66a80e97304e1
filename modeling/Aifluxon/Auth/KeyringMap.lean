import Aifluxon.Auth.KeyringCalls

/-!
# The keyring store is a map

Over a backend that does not fail, the calls of the keyring store are those of a map from keys to secrets.

* `mapMachine` : what the store is for; `keyringMachine` : the store;
* `KeyringRepresents` : the backend holds the layouts of the secrets of a map, and nothing else;
* `KeyringRepresents.get`, `KeyringRepresents.set`, `KeyringRepresents.delete` : it is kept;
* `keyring_refines_map` : over every sequence of calls.
-/

namespace Aifluxon

open SystemKeyringStore KeyringM KeyringWorld

inductive KeyringCall where
  | set (key secret : List Char)
  | get (key : List Char)
  | delete (key : List Char)

inductive KeyringReply where
  | done
  | found (secret : Option (List Char))
  deriving DecidableEq

def KeyringCall.procedure (sha256 : Sha256) : KeyringCall → KeyringM KeyringReply
  | set key secret => (fun _ => .done) <$> SystemKeyringStore.set sha256 key secret
  | get key => .found <$> SystemKeyringStore.get sha256 key
  | delete key => (fun _ => .done) <$> SystemKeyringStore.delete key

def keyringMachine (sha256 : Sha256) : Machine KeyringWorld KeyringCall (Except AuthError KeyringReply) where
  step w call := some ((exec (call.procedure sha256) w).2, [(exec (call.procedure sha256) w).1])

/-- What a secret store is for: the calls of a map. -/
def mapMachine : Machine (List Char → Option (List Char)) KeyringCall (Except AuthError KeyringReply) where
  step m
    | .set key secret => some (Function.update m key (some secret), [.ok .done])
    | .get key => some (m, [.ok (.found (m key))])
    | .delete key => some (Function.update m key none, [.ok .done])

/-- A key that cannot be taken for the entry of a chunk. -/
def KeyringKey (key : List Char) : Prop := ¬ ":chunk:".toList <:+: key

/-- The next generation has not been drawn before. -/
def NewGeneration (w : KeyringWorld) : Prop :=
  ∀ n < w.draws, generationText (w.generations n) ≠ generationText (w.generations w.draws)

/-- **The backend holds the entries and the chunks of the secrets of the map, and nothing else.** -/
structure KeyringRepresents (sha256 : Sha256) (bytes : List Char → GenerationBytes) (m : List Char → Option (List Char))
    (w : KeyringWorld) : Prop where
  proper : ∀ key secret, m key = some secret → KeyringKey key ∧ Plain secret ∧ Fits secret
  drawn : ∀ key secret, m key = some secret → ¬ secretUtf16Units secret ≤ keyringChunkMaxUtf16Units →
    ∃ n < w.draws, bytes key = w.generations n
  entries : ∀ name value, w.entries name = some value ↔
    ∃ key secret, m key = some secret ∧ (name, value) ∈ layout sha256 (bytes key) key secret

/-- The names of the entries of a key. -/
def Owns (key name : List Char) : Prop := name = key ∨ ∃ generation, ':' ∉ generation ∧ ChunkOf key generation name

variable {sha256 : Sha256} {key key' name secret : List Char} {w : KeyringWorld}

theorem KeyringKey.not_chunk (h : KeyringKey key) {generation : List Char} : ¬ ChunkOf key' generation key := by
  rintro ⟨i, rfl⟩
  refine h ⟨key', generation ++ ':' :: decimal i, ?_⟩
  unfold chunkAccount
  simp only [List.append_assoc]

theorem Owns.unique (h : Owns key name) (h' : Owns key' name) (hkey : KeyringKey key) (hkey' : KeyringKey key') :
    key = key' := by
  rcases h with rfl | ⟨g, hg, hchunk⟩
  · rcases h' with rfl | ⟨g, -, hchunk⟩
    · rfl
    · exact absurd hchunk hkey.not_chunk
  · rcases h' with rfl | ⟨g', hg', hchunk'⟩
    · exact absurd hchunk hkey'.not_chunk
    · obtain ⟨i, rfl⟩ := hchunk
      obtain ⟨j, hj⟩ := hchunk'
      exact (chunkAccount_inj hj hg hg').1

theorem owns_layout {bytes : GenerationBytes} {e : List Char × List Char} (he : e ∈ layout sha256 bytes key secret) :
    Owns key e.1 :=
  (layout_name he).imp id fun hchunk => ⟨_, colon_not_mem_generationText bytes, hchunk.2⟩

theorem key_mem_layout (sha256 : Sha256) (bytes : GenerationBytes) (key secret : List Char) :
    ∃ value, (key, value) ∈ layout sha256 bytes key secret := by
  unfold layout
  split
  · exact ⟨secret, List.mem_singleton_self _⟩
  · exact ⟨_, List.mem_cons_self⟩

namespace KeyringRepresents

variable {bytes : List Char → GenerationBytes} {m : List Char → Option (List Char)}

/-- A key without a secret has no entry. -/
theorem absent (h : KeyringRepresents sha256 bytes m w) (hkey : KeyringKey key) (hnone : m key = none) :
    w.entries key = none := by
  cases hentry : w.entries key with
  | none => rfl
  | some value =>
    obtain ⟨key', secret, hsecret, hmem⟩ := (h.entries key value).1 hentry
    have howner := Owns.unique (.inl rfl) (owns_layout hmem) hkey (h.proper key' secret hsecret).1
    rw [← howner, hnone] at hsecret
    cases hsecret

/-- The manifest of a key is that of its secret. -/
theorem manifest (h : KeyringRepresents sha256 bytes m w) (hkey : KeyringKey key) {manifest : SecretChunkManifest}
    (hmanifest : manifestIn (w.entries key) = some manifest) :
    ∃ secret, m key = some secret ∧ ¬ secretUtf16Units secret ≤ keyringChunkMaxUtf16Units ∧
      manifest = manifestOf sha256 (bytes key) secret := by
  cases hsecret : m key with
  | none =>
    rw [h.absent hkey hsecret] at hmanifest
    cases hmanifest
  | some secret =>
    obtain ⟨-, hplain, hfits⟩ := h.proper key secret hsecret
    have hholds (e : List Char × List Char) (he : e ∈ layout sha256 (bytes key) key secret) :
        w.entries e.1 = some e.2 := (h.entries e.1 e.2).2 ⟨key, secret, hsecret, he⟩
    unfold manifestIn at hmanifest
    by_cases hshort : secretUtf16Units secret ≤ keyringChunkMaxUtf16Units
    · have hentry : w.entries key = some secret :=
        hholds (key, secret) (by unfold layout; rw [if_pos hshort]; exact List.mem_singleton_self _)
      rw [hentry, Option.bind_some, parseChunkManifest_plain hplain] at hmanifest
      cases hmanifest
    · have hentry : w.entries key = some (encodeChunkManifest (manifestOf sha256 (bytes key) secret)) :=
        hholds (key, _) (by unfold layout; rw [if_neg hshort]; exact List.mem_cons_self)
      have hvalid := manifestOf_valid sha256 (bytes key) (hfits.resolve_left hshort)
      rw [hentry, Option.bind_some, parseChunkManifest_encode hvalid] at hmanifest
      exact ⟨secret, rfl, hshort, (Option.some.inj hmanifest).symm⟩

/-- The entries of a secret are the one of its key, and the chunks that are known from it. -/
theorem name_of_layout (h : KeyringRepresents sha256 bytes m w) (hsecret : m key = some secret) {e : List Char × List Char}
    (he : e ∈ layout sha256 (bytes key) key secret) :
    e.1 = key ∨ e.1 ∈ previousNames key (manifestIn (w.entries key)) := by
  obtain ⟨-, hplain, hfits⟩ := h.proper key secret hsecret
  by_cases hshort : secretUtf16Units secret ≤ keyringChunkMaxUtf16Units
  · unfold layout at he
    rw [if_pos hshort] at he
    rw [List.mem_singleton.1 he]
    exact .inl rfl
  · have hentry : w.entries key = some (encodeChunkManifest (manifestOf sha256 (bytes key) secret)) := by
      refine (h.entries _ _).2 ⟨key, secret, hsecret, ?_⟩
      unfold layout
      rw [if_neg hshort]
      exact List.mem_cons_self
    have hmanifest : manifestIn (w.entries key) = some (manifestOf sha256 (bytes key) secret) := by
      unfold manifestIn
      rw [hentry, Option.bind_some, parseChunkManifest_encode (manifestOf_valid sha256 _ (hfits.resolve_left hshort))]
      rfl
    unfold layout at he
    rw [if_neg hshort] at he
    rcases List.mem_cons.1 he with rfl | he
    · exact .inl rfl
    · obtain ⟨i, hi, rfl⟩ := List.mem_mapIdx.1 he
      rw [hmanifest]
      exact .inr (mem_names.2 ⟨i, hi, rfl⟩)

theorem fresh (h : KeyringRepresents sha256 bytes m w) (hkey : KeyringKey key) (hnew : NewGeneration w) : Fresh w key := by
  intro manifest hmanifest
  obtain ⟨secret, hsecret, hlong, rfl⟩ := h.manifest hkey hmanifest
  obtain ⟨n, hn, hbytes⟩ := h.drawn key secret hsecret hlong
  show generationText (bytes key) ≠ _
  rw [hbytes]
  exact hnew n hn

/-- The names of what was there belong to the key. -/
theorem owns_previous (hname : name ∈ previousNames key (manifestIn (w.entries key))) : Owns key name := by
  cases hprevious : manifestIn (w.entries key) with
  | none =>
    rw [hprevious] at hname
    cases hname
  | some manifest =>
    rw [hprevious] at hname
    obtain ⟨i, -, rfl⟩ := mem_names.1 hname
    exact .inr ⟨_, manifestIn_colon hprevious, i, rfl⟩

/-- The entries that a change of one key leaves to the others. -/
theorem others (h : KeyringRepresents sha256 bytes m w) (hkey : KeyringKey key) (name value : List Char) :
    (∃ key' secret, key' ≠ key ∧ m key' = some secret ∧ (name, value) ∈ layout sha256 (bytes key') key' secret) ↔
      w.entries name = some value ∧ name ≠ key ∧ name ∉ previousNames key (manifestIn (w.entries key)) := by
  constructor
  · rintro ⟨key', secret, hne, hsecret, hmem⟩
    have hproper := (h.proper key' secret hsecret).1
    refine ⟨(h.entries name value).2 ⟨key', secret, hsecret, hmem⟩, fun hname => hne ?_, fun hname => hne ?_⟩
    · exact (owns_layout hmem).unique (.inl hname) hproper hkey
    · exact (owns_layout hmem).unique (owns_previous hname) hproper hkey
  · rintro ⟨hentry, hname, hprevious⟩
    obtain ⟨key', secret, hsecret, hmem⟩ := (h.entries name value).1 hentry
    refine ⟨key', secret, fun heq => ?_, hsecret, hmem⟩
    subst heq
    exact (h.name_of_layout hsecret hmem).elim hname hprevious

theorem get (h : KeyringRepresents sha256 bytes m w) (hw : w.Working) (hkey : KeyringKey key) :
    (exec (SystemKeyringStore.get sha256 key) w).1 = .ok (m key) ∧
      KeyringRepresents sha256 bytes m (exec (SystemKeyringStore.get sha256 key) w).2 ∧
      (exec (SystemKeyringStore.get sha256 key) w).2.Working := by
  obtain ⟨hresult, hwithin⟩ := get_exec sha256 key hw
  have hentries : (exec (SystemKeyringStore.get sha256 key) w).2.entries = w.entries := by
    funext name
    exact hwithin.entries name id
  refine ⟨?_, ⟨h.proper, ?_, ?_⟩, hwithin.working hw⟩
  · rw [hresult]
    cases hsecret : m key with
    | none =>
      unfold readBack
      rw [h.absent hkey hsecret]
    | some secret =>
      obtain ⟨-, hplain, hfits⟩ := h.proper key secret hsecret
      exact readBack_layout hplain hfits fun e he => (h.entries e.1 e.2).2 ⟨key, secret, hsecret, he⟩
  · rw [hwithin.draws, hwithin.generations]
    exact h.drawn
  · rw [hentries]
    exact h.entries

theorem delete (h : KeyringRepresents sha256 bytes m w) (hw : w.Working) (hkey : KeyringKey key) :
    (exec (SystemKeyringStore.delete key) w).1 = .ok () ∧
      KeyringRepresents sha256 bytes (Function.update m key none) (exec (SystemKeyringStore.delete key) w).2 ∧
      (exec (SystemKeyringStore.delete key) w).2.Working := by
  rcases exec_delete key w with ⟨error, hfault, -⟩ | ⟨-, hexec⟩
  · rw [hw] at hfault
    cases hfault
  rw [hexec]
  obtain ⟨hwithin, hgone, hresult⟩ := exec_deleteAll (key :: previousNames key (manifestIn (w.entries key))) none w.tick
  have hkept (key' : List Char) (secret : List Char) (hsecret : Function.update m key none key' = some secret) :
      key' ≠ key ∧ m key' = some secret := by
    by_cases heq : key' = key
    · subst heq
      rw [Function.update_self] at hsecret
      cases hsecret
    · rw [Function.update_of_ne heq] at hsecret
      exact ⟨heq, hsecret⟩
  have hworking : w.tick.Working := fun n => hw n
  refine ⟨hresult.2 ⟨rfl, fun i _ => hw _⟩, ⟨fun key' secret hsecret =>
    h.proper key' secret (hkept key' secret hsecret).2, fun key' secret hsecret hlong => ?_, fun name value => ?_⟩,
    hwithin.working hworking⟩
  · obtain ⟨n, hn, hbytes⟩ := h.drawn key' secret (hkept key' secret hsecret).2 hlong
    rw [hwithin.draws, hwithin.generations]
    exact ⟨n, hn, hbytes⟩
  · have hothers := h.others hkey name value
    have hright : (∃ key' secret, Function.update m key none key' = some secret ∧
        (name, value) ∈ layout sha256 (bytes key') key' secret) ↔
        ∃ key' secret, key' ≠ key ∧ m key' = some secret ∧ (name, value) ∈ layout sha256 (bytes key') key' secret := by
      constructor
      · rintro ⟨key', secret, hsecret, hmem⟩
        exact ⟨key', secret, (hkept key' secret hsecret).1, (hkept key' secret hsecret).2, hmem⟩
      · rintro ⟨key', secret, hne, hsecret, hmem⟩
        exact ⟨key', secret, by rw [Function.update_of_ne hne]; exact hsecret, hmem⟩
    rw [hright, hothers]
    by_cases hmem : name ∈ key :: previousNames key (manifestIn (w.entries key))
    · obtain ⟨i, hi⟩ := List.mem_iff_getElem?.1 hmem
      rw [hgone name ⟨i, hi, hw _⟩]
      refine ⟨nofun, fun hentry => ?_⟩
      exact ((List.mem_cons.1 hmem).elim hentry.2.1 hentry.2.2).elim
    · rw [hwithin.entries name fun hdeleted => hmem hdeleted.mem]
      rw [List.mem_cons, not_or] at hmem
      exact ⟨fun hentry => ⟨hentry, hmem⟩, fun hentry => hentry.1⟩

theorem set (h : KeyringRepresents sha256 bytes m w) (hw : w.Working) (hkey : KeyringKey key) (hplain : Plain secret)
    (hfits : Fits secret) (hnew : ¬ secretUtf16Units secret ≤ keyringChunkMaxUtf16Units → NewGeneration w) :
    (exec (SystemKeyringStore.set sha256 key secret) w).1 = .ok () ∧
      KeyringRepresents sha256 (Function.update bytes key (w.generations w.draws)) (Function.update m key (some secret))
        (exec (SystemKeyringStore.set sha256 key secret) w).2 ∧
      (exec (SystemKeyringStore.set sha256 key secret) w).2.Working := by
  have hfresh := fun hlong => h.fresh hkey (hnew hlong)
  rcases exec_set sha256 key secret w with ⟨error, -, hnot, -⟩ | ⟨mid, hmid, hexec⟩
  · exact absurd ⟨hw, hfits⟩ hnot
  rw [hexec]
  obtain ⟨hresult, hwithin, hgone⟩ := exec_deletePrevious key (manifestIn (w.entries key)) mid
  have hworking : mid.Working := by
    intro n
    rw [hmid.faults]
    exact hw n
  refine ⟨hresult, ⟨fun key' secret' hsecret' => ?_, fun key' secret' hsecret' hlong => ?_, fun name value => ?_⟩,
    hwithin.working hworking⟩
  · by_cases heq : key' = key
    · subst heq
      rw [Function.update_self] at hsecret'
      cases hsecret'
      exact ⟨hkey, hplain, hfits⟩
    · rw [Function.update_of_ne heq] at hsecret'
      exact h.proper key' secret' hsecret'
  · rw [hwithin.draws, hwithin.generations, hmid.draws, hmid.generations]
    by_cases heq : key' = key
    · subst heq
      rw [Function.update_self] at hsecret' ⊢
      cases hsecret'
      rw [if_neg hlong]
      exact ⟨w.draws, Nat.lt_succ_self _, rfl⟩
    · rw [Function.update_of_ne heq] at hsecret' ⊢
      obtain ⟨n, hn, hbytes⟩ := h.drawn key' secret' hsecret' hlong
      exact ⟨n, Nat.lt_of_lt_of_le hn (Nat.le_add_right _ _), hbytes⟩
  · have hothers := h.others hkey name value
    have hright : (∃ key' secret', Function.update m key (some secret) key' = some secret' ∧
        (name, value) ∈ layout sha256 (Function.update bytes key (w.generations w.draws) key') key' secret') ↔
        (name, value) ∈ layout sha256 (w.generations w.draws) key secret ∨
          ∃ key' secret', key' ≠ key ∧ m key' = some secret' ∧
            (name, value) ∈ layout sha256 (bytes key') key' secret' := by
      constructor
      · rintro ⟨key', secret', hsecret', hmem⟩
        by_cases heq : key' = key
        · subst heq
          rw [Function.update_self] at hsecret' hmem
          cases hsecret'
          exact .inl hmem
        · rw [Function.update_of_ne heq] at hsecret' hmem
          exact .inr ⟨key', secret', heq, hsecret', hmem⟩
      · rintro (hmem | ⟨key', secret', hne, hsecret', hmem⟩)
        · exact ⟨key, secret, Function.update_self .., by rw [Function.update_self]; exact hmem⟩
        · refine ⟨key', secret', ?_, ?_⟩
          · rw [Function.update_of_ne hne]
            exact hsecret'
          · rw [Function.update_of_ne hne]
            exact hmem
    rw [hright, hothers]
    by_cases hin : ∃ e ∈ layout sha256 (w.generations w.draws) key secret, name = e.1
    · -- an entry of the new secret
      obtain ⟨e, he, rfl⟩ := hin
      rw [set_stored hfresh hmid e he]
      constructor
      · intro hvalue
        cases hvalue
        exact .inl he
      · rintro (hmem | ⟨hentry, hname, hprevious⟩)
        · rw [← set_stored hfresh hmid _ hmem, set_stored hfresh hmid e he]
        · rcases layout_name he with hkeyed | -
          · exact absurd hkeyed hname
          · obtain ⟨key', secret', hne, hsecret', hmem⟩ := hothers.2 ⟨hentry, hname, hprevious⟩
            have hown : Owns key e.1 := owns_layout he
            exact absurd ((owns_layout hmem).unique hown (h.proper key' secret' hsecret').1 hkey) hne
    · have hout (e : List Char × List Char) (he : e ∈ layout sha256 (w.generations w.draws) key secret) :
          name ≠ e.1 := fun heq => hin ⟨e, he, heq⟩
      obtain ⟨value', hvalue'⟩ := key_mem_layout sha256 (w.generations w.draws) key secret
      have hname : name ≠ key := hout _ hvalue'
      by_cases hprevious : name ∈ previousNames key (manifestIn (w.entries key))
      · rw [hgone hworking name hprevious]
        refine ⟨nofun, ?_⟩
        rintro (hmem | hentry)
        · exact absurd rfl (hout _ hmem)
        · exact absurd hprevious hentry.2.2
      · rw [hwithin.entries name hprevious, hmid.others name hout]
        constructor
        · intro hentry
          exact .inr ⟨hentry, hname, hprevious⟩
        · rintro (hmem | hentry)
          · exact absurd rfl (hout _ hmem)
          · exact hentry.1

end KeyringRepresents

/-! ## Every sequence of calls -/

/-- A backend without entries, which does not fail. -/
def KeyringWorld.empty (generations : Nat → GenerationBytes) : KeyringWorld :=
  ⟨fun _ => none, fun _ => none, 0, generations, 0⟩

theorem KeyringRepresents.empty (sha256 : Sha256) (bytes : List Char → GenerationBytes)
    (generations : Nat → GenerationBytes) : KeyringRepresents sha256 bytes (fun _ => none) (.empty generations) := by
  refine ⟨nofun, nofun, fun name value => ⟨nofun, ?_⟩⟩
  rintro ⟨key, secret, hsecret, -⟩
  cases hsecret

/-- What a call relies on: a `set` of chunks draws a generation that is new. -/
def KeyringCall.Allowed (w : KeyringWorld) : KeyringCall → Prop
  | set key secret => KeyringKey key ∧ Plain secret ∧ Fits secret ∧
    (¬ secretUtf16Units secret ≤ keyringChunkMaxUtf16Units → NewGeneration w)
  | get key | delete key => KeyringKey key

theorem exec_map {α β : Type} {x : KeyringM α} {a : α} (f : α → β) (hx : (exec x w).1 = .ok a) :
    exec (f <$> x) w = (.ok (f a), (exec x w).2) := by
  show exec (x >>= fun a => pure (f a)) w = _
  rw [exec_bind]
  rcases hexec : exec x w with ⟨result, w'⟩
  rw [hexec] at hx
  obtain rfl : result = .ok a := hx
  rfl

/-- **One call** of the store is the call of the map. -/
theorem keyring_step {bytes : List Char → GenerationBytes} {m : List Char → Option (List Char)} {call : KeyringCall}
    {w' : KeyringWorld} {o : List (Except AuthError KeyringReply)} (h : KeyringRepresents sha256 bytes m w) (hw : w.Working)
    (hcall : call.Allowed w) (hstep : (keyringMachine sha256).step w call = some (w', o)) :
    ∃ m', mapMachine.step m call = some (m', o) ∧ (∃ bytes', KeyringRepresents sha256 bytes' m' w') ∧ w'.Working := by
  obtain ⟨rfl, rfl⟩ := Prod.mk.inj (Option.some.inj hstep)
  unfold KeyringCall.procedure
  cases call with
  | get key =>
    obtain ⟨hresult, hafter, hworking⟩ := h.get hw hcall
    rw [exec_map _ hresult]
    exact ⟨m, rfl, ⟨bytes, hafter⟩, hworking⟩
  | set key secret =>
    obtain ⟨hkey, hplain, hfits, hnew⟩ := hcall
    obtain ⟨hresult, hafter, hworking⟩ := h.set hw hkey hplain hfits hnew
    rw [exec_map _ hresult]
    exact ⟨_, rfl, ⟨_, hafter⟩, hworking⟩
  | delete key =>
    obtain ⟨hresult, hafter, hworking⟩ := h.delete hw hcall
    rw [exec_map _ hresult]
    exact ⟨_, rfl, ⟨bytes, hafter⟩, hworking⟩

/-- **The keyring store refines a map.** Over every sequence of calls the replies are those of the map, and the backend
holds exactly the entries and the chunks of its secrets. -/
theorem keyring_refines_map (sha256 : Sha256) (generations : Nat → GenerationBytes) {calls : List KeyringCall}
    {replies : List (Except AuthError KeyringReply)} {w : KeyringWorld}
    (hr : (keyringMachine sha256).Run (fun w call => call.Allowed w) (.empty generations) calls replies w) :
    ∃ m, mapMachine.Run Machine.Free (fun _ => none) calls replies m ∧ ∃ bytes, KeyringRepresents sha256 bytes m w := by
  have hstart : (∃ bytes, KeyringRepresents sha256 bytes (fun _ => none) (.empty generations)) ∧
      (KeyringWorld.empty generations).Working := ⟨⟨fun _ => generations 0, .empty sha256 _ _⟩, fun _ => rfl⟩
  obtain ⟨replies', m, hrun, ⟨hrepresents, -⟩, hreplies⟩ := hr.simulate (N := mapMachine)
    (R := fun w m => (∃ bytes, KeyringRepresents sha256 bytes m w) ∧ w.Working) (Q := Eq) hstart fun hR hg hs => by
      obtain ⟨⟨bytes, h⟩, hw⟩ := hR
      obtain ⟨m', hstep, hafter, hworking⟩ := keyring_step h hw hg hs
      exact ⟨m', _, hstep, ⟨hafter, hworking⟩, List.forall₂_eq_eq_eq ▸ rfl⟩
  rw [List.forall₂_eq_eq_eq] at hreplies
  subst hreplies
  exact ⟨m, hrun, hrepresents⟩

instance : Decidable (Plain secret) :=
  decidable_of_iff (secret.all isWhitespace = false ∧ ¬ keyringChunkManifestPrefix <+: secret)
    ⟨fun h => ⟨h.1, h.2⟩, fun h => ⟨h.1, h.2⟩⟩

instance : Decidable (Fits secret) := inferInstanceAs (Decidable (_ ∨ _))

instance : Decidable (KeyringKey key) := inferInstanceAs (Decidable (¬ _))

instance : Decidable (NewGeneration w) := inferInstanceAs (Decidable (∀ n < w.draws, _))

instance : (call : KeyringCall) → Decidable (call.Allowed w)
  | .set _ _ => inferInstanceAs (Decidable (_ ∧ _))
  | .get _ | .delete _ => inferInstanceAs (Decidable (KeyringKey _))

/-- A secret of two chunks, replaced by a short one. -/
def replacedCalls : List KeyringCall := [.set ['k'] longSecret, .set ['k'] ['n', 'e', 'w'], .get ['k']]

/-- The short secret is read, and is all that is left. -/
theorem keyring_refines_map_replaced : ∃ w m bytes, (keyringMachine longSha256).Run (fun w call => call.Allowed w)
    (.empty fun n => ⟨leBytes 12 n, length_leBytes 12 n⟩) replacedCalls
    [.ok .done, .ok .done, .ok (.found (some ['n', 'e', 'w']))] w ∧ KeyringRepresents longSha256 bytes m w := by
  have hcomputed : ((keyringMachine longSha256).exec (fun w call => decide (call.Allowed w))
      (.empty fun n => ⟨leBytes 12 n, length_leBytes 12 n⟩) replacedCalls).any
      (fun r => decide (r.2 = [.ok .done, .ok .done, .ok (.found (some ['n', 'e', 'w']))])) = true := by
    decide +kernel
  obtain ⟨⟨w, replies⟩, hexec, hreplies⟩ := (Option.any_eq_true _ _).1 hcomputed
  obtain rfl := of_decide_eq_true hreplies
  have hr := Machine.run_of_exec (G := fun w (call : KeyringCall) => call.Allowed w)
    (fun _ _ h => of_decide_eq_true h) hexec
  obtain ⟨m, -, bytes, hrepresents⟩ := keyring_refines_map longSha256 _ hr
  exact ⟨w, m, bytes, hr, hrepresents⟩

end Aifluxon
