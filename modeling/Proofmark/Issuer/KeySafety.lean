/-
  Generations of operating keys (src/RotatingIssuer.sol).

  A `Separate` issuer keeps the roles of its owners apart from all keys that it ever had.
  `Advances` is what the keys and their epoch can do over any calls.

  `key_generation_safety`: over every run of the issuer, no key returns to a role after it
  stopped being the operating key.
-/
import Proofmark.Issuer.KeyEffects

namespace Proofmark

open Revert Function

namespace RotatingIssuer

variable {ρ : Type} {s s' x y z : RotatingIssuer} {sender : Address} {c : IssuerCall}

/-! ## Roles -/

/-- The owners have no keys, and the pending key is fresh. -/
structure Separate (s : RotatingIssuer) : Prop where
  owner_ne : s.ownable.owner ≠ 0
  owner_unused : s.usedKey s.ownable.owner = false
  owner_pending : s.ownable.owner ≠ s.pendingKey
  pendingOwner : s.ownable.pendingOwner ≠ 0 →
    s.usedKey s.ownable.pendingOwner = false ∧ s.ownable.pendingOwner ≠ s.pendingKey
  pending_unused : s.pendingKey ≠ 0 → s.usedKey s.pendingKey = false
  operating_used : s.operatingKey ≠ 0 → s.usedKey s.operatingKey = true

/-- **The roles stay apart.** -/
theorem Separate.step (hs : sender ≠ 0) (h : Separate s) (he : IssuerEffect sender s c s') :
    Separate s' := by
  cases he with
  | proposed _ h0 hu ho hp =>
    exact ⟨h.owner_ne, h.owner_unused, Ne.symm ho,
      fun hpo => ⟨(h.pendingOwner hpo).1, Ne.symm hp⟩, fun _ => hu, h.operating_used⟩
  | cancelled _ =>
    exact ⟨h.owner_ne, h.owner_unused, h.owner_ne, fun hpo => ⟨(h.pendingOwner hpo).1, hpo⟩,
      fun h0 => absurd rfl h0, h.operating_used⟩
  | accepted _ h0 _ =>
    refine ⟨h.owner_ne, ?_, h.owner_ne, fun hpo => ⟨?_, hpo⟩, fun h0 => absurd rfl h0,
      fun _ => update_self ..⟩
    · exact (update_of_ne h.owner_pending ..).trans h.owner_unused
    · exact (update_of_ne (h.pendingOwner hpo).2 ..).trans (h.pendingOwner hpo).1
  | suspended _ _ _ =>
    exact ⟨h.owner_ne, h.owner_unused, h.owner_ne, fun hpo => ⟨(h.pendingOwner hpo).1, hpo⟩,
      fun h0 => absurd rfl h0, fun h0 => absurd rfl h0⟩
  | offered _ hn =>
    exact ⟨h.owner_ne, h.owner_unused, h.owner_pending, hn, h.pending_unused, h.operating_used⟩
  | succeeded ho =>
    have hpo := h.pendingOwner (ho ▸ hs)
    exact ⟨hs, ho ▸ hpo.1, hs, fun h0 => absurd rfl h0, fun h0 => absurd rfl h0, h.operating_used⟩
  | operated _ _ _ => exact h

/-! ## Epochs -/

/-- Used keys stay used, and a new operating key is fresh and has a later epoch. -/
structure Advances (s s' : RotatingIssuer) : Prop where
  used : ∀ key, s.usedKey key = true → s'.usedKey key = true
  epoch : s'.keyEpoch = s.keyEpoch ∧ s'.operatingKey = s.operatingKey ∨
    s.keyEpoch.toNat < s'.keyEpoch.toNat ∧
      (s'.operatingKey = 0 ∨ s.usedKey s'.operatingKey = false)

theorem Advances.refl (s : RotatingIssuer) : Advances s s := ⟨fun _ => id, .inl ⟨rfl, rfl⟩⟩

theorem Advances.trans (h : Advances x y) (h' : Advances y z) : Advances x z := by
  refine ⟨fun key hk => h'.used key (h.used key hk), ?_⟩
  rcases h'.epoch with ⟨he', hk'⟩ | ⟨hlt', hk'⟩
  · rw [he', hk']
    exact h.epoch
  · have hfresh : z.operatingKey = 0 ∨ x.usedKey z.operatingKey = false :=
      hk'.imp id fun hu => Bool.eq_false_iff.2 fun hx => by
        rw [h.used _ hx] at hu
        cases hu
    refine .inr ⟨?_, hfresh⟩
    rcases h.epoch with ⟨he, -⟩ | ⟨hlt, -⟩
    · rwa [← he]
    · exact hlt.trans hlt'

theorem toNat_succ {e : U64} (h : e ≠ BitVec.allOnes 64) : (e + 1).toNat = e.toNat + 1 := by
  have hne : e.toNat ≠ 2 ^ 64 - 1 := fun he => h (BitVec.eq_of_toNat_eq (by simpa using he))
  have hlt := e.isLt
  have hone : (1 : U64).toNat = 1 := rfl
  rw [BitVec.toNat_add, hone]
  omega

/-- **A call advances the keys.** -/
theorem advances_effect (h : Separate s) (he : IssuerEffect sender s c s') : Advances s s' := by
  cases he with
  | proposed | cancelled | offered | succeeded | operated => exact ⟨fun _ => id, .inl ⟨rfl, rfl⟩⟩
  | accepted _ h0 hm =>
    refine ⟨fun key hk => ?_, .inr ⟨?_, .inr (h.pending_unused h0)⟩⟩
    · by_cases heq : key = s.pendingKey
      · rw [heq]
        exact update_self ..
      · exact (update_of_ne heq ..).trans hk
    · exact (toNat_succ hm).symm ▸ Nat.lt_succ_self _
  | suspended _ _ hm =>
    exact ⟨fun _ => id, .inr ⟨(toNat_succ hm).symm ▸ Nat.lt_succ_self _, .inl rfl⟩⟩

/-! ## Runs -/

variable {s₀ : RotatingIssuer} {es : List (IssuerEntry ρ)}

theorem separate_construct {recoveryOwner initialKey : Address} {codeLength : ℕ}
    {v : SourceVersions} (h : construct recoveryOwner initialKey codeLength v = .ok s₀) :
    Separate s₀ := by
  simp only [construct, Ownable.deploy, bind_ok, mapError_ok, revertIf_ok, pure_ok, not_or] at h
  obtain ⟨_, ⟨_, ho, rfl⟩, _, -, _, -, _, ⟨hk, hko⟩, rfl⟩ := h
  refine ⟨ho, ?_, ho, fun h0 => absurd rfl h0, fun h0 => absurd rfl h0, fun _ => ?_⟩
  · show update (fun _ => false) initialKey true recoveryOwner = false
    exact update_of_ne (Ne.symm hko) ..
  · show update (fun _ => false) initialKey true initialKey = true
    exact update_self ..

theorem isStep_effect {e : IssuerEntry ρ} (h : (machine ρ).IsStep e) :
    IssuerEffect e.act.msg.sender e.pre e.act.call e.post := call_effect h

theorem separate_run (h₀ : Separate s₀) (h : (machine ρ).Run s₀ es s) : Separate s :=
  h.invariant h₀ fun e hs he => hs.step e.act.msg.sender_ne (isStep_effect he)

theorem advances_run (h₀ : Separate s₀) (h : (machine ρ).Run s₀ es s) : Advances s₀ s := by
  have hboth : Separate s ∧ Advances s₀ s := by
    refine h.invariant (I := fun s => Separate s ∧ Advances s₀ s) ⟨h₀, .refl s₀⟩ ?_
    rintro e ⟨hsep, hadv⟩ he
    exact ⟨hsep.step e.act.msg.sender_ne (isStep_effect he),
      hadv.trans (advances_effect hsep (isStep_effect he))⟩
  exact hboth.2

/-- The entry `p` proposed the key `key`, and the owner has been the same since then. -/
structure ProposedBy (es : List (IssuerEntry ρ)) (key owner : Address) : Prop where
  proposal : ∃ es₁ p es₂, es = es₁ ++ p :: es₂ ∧ p.act.call = .proposeKey key ∧
    p.act.msg.sender = owner ∧ p.pre.ownable.owner = owner ∧
      ∀ e ∈ p :: es₂, e.post.ownable.owner = owner

theorem ProposedBy.concat {e : IssuerEntry ρ} {key owner : Address} (h : ProposedBy es key owner)
    (he : e.post.ownable.owner = owner) : ProposedBy (es ++ [e]) key owner := by
  obtain ⟨es₁, p, es₂, rfl, hp, hs, ho, hall⟩ := h.proposal
  refine ⟨es₁, p, es₂ ++ [e], by simp, hp, hs, ho, fun e' he' => ?_⟩
  rw [← List.cons_append] at he'
  rcases List.mem_append.1 he' with he' | he'
  · exact hall e' he'
  · rw [List.mem_singleton.1 he']
    exact he

/-- **The pending key was proposed by the owner of the day.** -/
theorem proposedBy_run (h0 : s₀.pendingKey = 0) (h : (machine ρ).Run s₀ es s) :
    s.pendingKey ≠ 0 → ProposedBy es s.pendingKey s.ownable.owner := by
  refine h.history
    (H := fun es s => s.pendingKey ≠ 0 → ProposedBy es s.pendingKey s.ownable.owner)
    (fun hne => absurd h0 hne) ?_
  rintro es ⟨s, a, out, s'⟩ - ih hstep hne
  have heff := isStep_effect hstep
  dsimp only at ih heff hne ⊢
  generalize hcall : a.call = call at heff
  cases heff with
  | proposed hs =>
    refine ⟨es, ⟨s, a, out, _⟩, [], rfl, hcall, hs, rfl, fun e he => ?_⟩
    rw [List.mem_singleton.1 he]
  | cancelled | accepted | suspended | succeeded => exact absurd rfl hne
  | offered => exact (ih hne).concat rfl
  | operated => exact (ih hne).concat rfl

/-- What holds over every run from the state `s₀`. -/
structure KeySafety (ρ : Type) (s₀ : RotatingIssuer) : Prop where
  /-- the owners are apart from the keys, also from all earlier ones -/
  roles : ∀ x y, (machine ρ).Reachable s₀ x → (machine ρ).Reachable x y →
    y.ownable.owner ≠ y.pendingKey ∧ y.ownable.owner ≠ x.operatingKey ∧
      (y.ownable.pendingOwner ≠ 0 → y.ownable.pendingOwner ≠ y.pendingKey ∧
        y.ownable.pendingOwner ≠ x.operatingKey)
  oneKey : ∀ x y, (machine ρ).Reachable s₀ x → (machine ρ).Reachable x y →
    x.keyEpoch = y.keyEpoch → x.operatingKey = y.operatingKey
  oneEpoch : ∀ x y, (machine ρ).Reachable s₀ x → (machine ρ).Reachable x y →
    x.operatingKey ≠ 0 → x.operatingKey = y.operatingKey → x.keyEpoch = y.keyEpoch
  /-- a key is accepted under the owner that proposed it -/
  accepted : ∀ es e expectedEpoch, (machine ρ).Run s₀ es e.pre → (machine ρ).IsStep e →
    e.act.call = .acceptKey expectedEpoch → ProposedBy es e.pre.pendingKey e.pre.ownable.owner ∧
      e.post.operatingKey = e.pre.pendingKey
  /-- a key that was replaced operates no more, and signs no more -/
  retired : ∀ x y z, (machine ρ).Reachable s₀ x → (machine ρ).Reachable x y →
    (machine ρ).Reachable y z → x.operatingKey ≠ 0 → y.operatingKey ≠ x.operatingKey →
      (∀ source c r, c.operating? ≠ none → z.call x.operatingKey (source : SourceCall → Except SourceError ρ) c ≠ .ok r) ∧
        ∀ env isIssuer digest signature, signer? env digest signature = some x.operatingKey →
          z.isValidSignature env isIssuer digest signature = ERC1271_FAILURE

/-- A key that was replaced is not the operating key again. -/
theorem operatingKey_ne (hx : Separate x) (hxy : Advances x y) (hyz : Advances y z)
    (h0 : x.operatingKey ≠ 0) (hne : y.operatingKey ≠ x.operatingKey) :
    z.operatingKey ≠ x.operatingKey := by
  have hused := hxy.used _ (hx.operating_used h0)
  rcases hyz.epoch with ⟨-, hk⟩ | ⟨-, hk | hk⟩
  · rwa [hk]
  · rw [hk]
    exact h0.symm
  · intro heq
    rw [heq, hused] at hk
    cases hk

/-- **The generations of keys are safe over every run.** -/
theorem key_generation_safety {recoveryOwner initialKey : Address} {codeLength : ℕ}
    {v : SourceVersions} (h : construct recoveryOwner initialKey codeLength v = .ok s₀) :
    KeySafety ρ s₀ := by
  have h₀ := separate_construct h
  have hsep : ∀ x, (machine ρ).Reachable s₀ x → Separate x := fun x ⟨_, hx⟩ => separate_run h₀ hx
  have hadv : ∀ x y, (machine ρ).Reachable s₀ x → (machine ρ).Reachable x y → Advances x y :=
    fun x y hx ⟨_, hy⟩ => advances_run (hsep x hx) hy
  have htrans : ∀ x y, (machine ρ).Reachable s₀ x → (machine ρ).Reachable x y →
      (machine ρ).Reachable s₀ y := fun x y ⟨_, hx⟩ ⟨_, hy⟩ => ⟨_, hx.append hy⟩
  refine ⟨fun x y hx hy => ?_, fun x y hx hy he => ?_, fun x y hx hy h0 hk => ?_,
    fun es e epoch hrun hstep hcall => ?_, fun x y z hx hy hz h0 hne => ?_⟩
  · have hyS := hsep y (htrans x y hx hy)
    -- an earlier key is used, and the owners are not
    have hkey : ∀ a, a ≠ 0 → y.usedKey a = false → a ≠ x.operatingKey := by
      rintro a ha hu rfl
      rw [(hadv x y hx hy).used _ ((hsep x hx).operating_used ha)] at hu
      cases hu
    exact ⟨hyS.owner_pending, hkey _ hyS.owner_ne hyS.owner_unused, fun hpo =>
      ⟨(hyS.pendingOwner hpo).2, hkey _ hpo (hyS.pendingOwner hpo).1⟩⟩
  · rcases (hadv x y hx hy).epoch with ⟨-, hk⟩ | ⟨hlt, -⟩
    · exact hk.symm
    · rw [he] at hlt
      exact absurd hlt (lt_irrefl _)
  · rcases (hadv x y hx hy).epoch with ⟨he, -⟩ | ⟨-, hz | hu⟩
    · exact he.symm
    · exact absurd (hk.trans hz) h0
    · rw [← hk, (hsep x hx).operating_used h0] at hu
      cases hu
  · have hpend : s₀.pendingKey = 0 := by
      simp only [construct, bind_ok, revertIf_ok, pure_ok] at h
      obtain ⟨_, -, _, -, _, -, _, -, rfl⟩ := h
      rfl
    have heff := isStep_effect hstep
    rw [hcall] at heff
    generalize hpost : e.post = post at heff
    cases heff with
    | accepted hs h0 hm => exact ⟨proposedBy_run hpend hrun h0, rfl⟩
    | suspended _ hc => cases hc
    | operated _ _ hc => cases hc
  · have hkey := operatingKey_ne (hsep x hx) (hadv x y hx hy)
      (hadv y z (htrans x y hx hy) hz) h0 hne
    refine ⟨?_, ?_⟩
    · rintro source c ⟨s', out⟩ hc hok
      have heff := call_effect hok
      cases heff with
      | operated _ hs _ => exact hkey hs.symm
      | suspended _ hsus _ => cases c <;> first | exact hc rfl | cases hsus
      | proposed | cancelled | accepted | offered | succeeded => exact hc rfl
    · intro env isIssuer digest signature hsigner
      rw [isValidSignature]
      split_ifs with h1 h2 h3
      · rfl
      · rfl
      · rw [hsigner, Option.some.injEq] at h3
        exact absurd h3.symm hkey
      · rfl

/-- An owner and its first key. -/
theorem key_generation_safety_deployed :
    ∃ s₀, construct 1 2 1 ⟨0, 2, 1, 1⟩ = .ok s₀ ∧ s₀.operatingKey = 2 ∧ KeySafety Unit s₀ := by
  have h : ∃ s₀, construct 1 2 1 ⟨0, 2, 1, 1⟩ = .ok s₀ ∧ s₀.operatingKey = 2 := ⟨_, rfl, rfl⟩
  obtain ⟨s₀, hc, hk⟩ := h
  exact ⟨s₀, hc, hk, key_generation_safety hc⟩

end RotatingIssuer

end Proofmark
