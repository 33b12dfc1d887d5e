/-
  Vault writes are serialisable.

  While an instance holds the lock no other instance changes the file, and what it is about
  to write is its operation applied to the data in the file (`TaskInv`).  So the renames form
  one chain (`Chain`), and a command ends in accordance with it (`Settled`).

  `vault_writes_serialisable`: this holds in every run in which `existsSync` never misses
  the file, and a lock file that its owner left stops every commit until it is removed.
-/
import Mathlib.Data.Option.Basic
import Proofmark.Pipeline.VaultWriter

namespace Proofmark

open Function

namespace VaultWriter

variable {κ δ : Type} {empty : δ}

/-! ## The chain of commits -/

/-- The commits lead from `a` to `b`, each by its operation and one revision on. -/
def Chain (a : Data δ) : List (Commit δ) → Data δ → Prop
  | [], b => b = a
  | c :: l, b => c.pre = a ∧ c.operation c.pre.content = .returned c.post.content ∧
      c.post.revision = c.pre.revision + 1 ∧ Chain c.post l b

theorem Chain.concat {a b : Data δ} {l : List (Commit δ)} {c : Commit δ} (h : Chain a l b)
    (hpre : c.pre = b) (hop : c.operation c.pre.content = .returned c.post.content)
    (hrev : c.post.revision = c.pre.revision + 1) : Chain a (l ++ [c]) c.post := by
  induction l generalizing a with
  | nil => exact ⟨hpre.trans h, hop, hrev, rfl⟩
  | cons d l ih =>
    obtain ⟨h1, h2, h3, h4⟩ := h
    exact ⟨h1, h2, h3, ih h4⟩

theorem Chain.revision {a b : Data δ} {l : List (Commit δ)} (h : Chain a l b) :
    b.revision = a.revision + l.length := by
  induction l generalizing a with
  | nil => rw [h]; rfl
  | cons c l ih =>
    obtain ⟨rfl, -, hrev, h4⟩ := h
    rw [ih h4, hrev, List.length_cons]
    omega

/-- The end of the chain is its start or the last commit. -/
theorem Chain.last {a b : Data δ} {l : List (Commit δ)} (h : Chain a l b) :
    b = a ∨ ∃ c ∈ l, b = c.post := by
  induction l generalizing a with
  | nil => exact .inl h
  | cons c l ih =>
    obtain ⟨-, -, -, h4⟩ := h
    rcases ih h4 with rfl | ⟨d, hd, rfl⟩
    · exact .inr ⟨c, List.mem_cons_self, rfl⟩
    · exact .inr ⟨d, List.mem_cons_of_mem c hd, rfl⟩

/-! ## The invariant -/

/-- The commands that have committed. -/
def World.committedIds (w : World κ δ) : List ℕ := w.commits.map Commit.id

/-- Data that the file has held. -/
def World.Held (base : Data δ) (w : World κ δ) (d : Data δ) : Prop :=
  d = base ∨ ∃ c ∈ w.commits, d = c.post

/-- What an outcome says about the commits, and about the data that it returns. -/
def World.Settled (base : Data δ) (w : World κ δ) (id : ℕ) : Outcome δ → Prop
  | .returned => id ∈ w.committedIds
  | .viewed d => id ∉ w.committedIds ∧ w.Held base d
  | .threw => id ∉ w.committedIds
  | .unconfirmed => True

/-- The data in memory that is about to be written. -/
def World.Pending (empty : δ) (w : World κ δ) (v : Vault κ δ) (t : Task κ δ) : Prop :=
  ∃ operation newKey, t.command = .mutate operation newKey ∧
    operation (w.committed empty).content = .returned v.data.content ∧
    v.data.revision = (w.committed empty).revision + 1

/-- Where a command stands. -/
def World.Progress (empty : δ) (base : Data δ) (w : World κ δ) (v : Vault κ δ) (t : Task κ δ) :
    Prop :=
  match t.call with
  | .mkdir | .openLock | .writeLock | .exists_ | .readFile => t.id ∉ w.committedIds
  | .existsToRead | .readToRead => t.id ∉ w.committedIds ∧ t.command = .read
  | .encrypt | .writeTemp | .rename => t.id ∉ w.committedIds ∧ w.Pending empty v t
  | .syncDirectory => t.id ∈ w.committedIds
  | .writeBackup => t.id ∉ w.committedIds ∧ w.Held base v.data
  | .existsAgain | .readAgain | .closeLock => w.Settled base t.id t.outcome
  | .unlinkLock => w.Settled base t.id t.outcome ∧ t.outcome.retainLock = false

structure TaskInv (empty : δ) (base : Data δ) (w : World κ δ) (i : ℕ) (v : Vault κ δ)
    (t : Task κ δ) : Prop where
  id_lt : t.id < w.nextId
  lock : t.call.holdsLock = true → w.lock = some i
  progress : w.Progress empty base v t

structure WriterInv (empty : δ) (base : Data δ) (w : World κ δ) : Prop where
  chain : Chain base w.commits (w.committed empty)
  nodup : w.committedIds.Nodup
  ids_lt : ∀ id ∈ w.committedIds, id < w.nextId
  outcomes_lt : ∀ p ∈ w.outcomes, p.1 < w.nextId
  outcomes : ∀ p ∈ w.outcomes, w.Settled base p.1 p.2
  tasks : ∀ i v t, w.vaults i = some v → v.task = some t → TaskInv empty base w i v t
  distinct : ∀ i j v v' t t', w.vaults i = some v → v.task = some t → w.vaults j = some v' →
    v'.task = some t' → t.id = t'.id → i = j
  open_ : ∀ i v t, w.vaults i = some v → v.task = some t → ∀ p ∈ w.outcomes, p.1 ≠ t.id

theorem decrypt_eq [DecidableEq κ] {w : World κ δ} {key : κ} {data : Data δ}
    (h : w.decrypt key = some data) : data = w.committed empty := by
  rw [World.decrypt, Option.bind_eq_some_iff] at h
  obtain ⟨e, he, h⟩ := h
  split_ifs at h
  rw [World.committed, he]
  exact (Option.some.inj h).symm

/-- The set of commits and the file stay. -/
structure SameFile (w w' : World κ δ) : Prop where
  file : w'.file = w.file
  commits : w'.commits = w.commits

section
variable {base : Data δ} {w w' : World κ δ} {i j : ℕ} {v v' : Vault κ δ} {t t' : Task κ δ}

theorem SameFile.settled (h : SameFile w w') {id : ℕ} {o : Outcome δ} :
    w'.Settled base id o ↔ w.Settled base id o := by
  cases o <;> simp [World.Settled, World.committedIds, World.Held, h.commits]

theorem SameFile.progress (h : SameFile w w') :
    w'.Progress empty base v t ↔ w.Progress empty base v t := by
  have hp : w'.Pending empty v t ↔ w.Pending empty v t := by
    simp only [World.Pending, World.committed, h.file]
  rw [World.Progress, World.Progress, hp, h.settled]
  simp only [World.committedIds, World.Held, h.commits]

/-- The id of the command of an instance, or of the next one. -/
def World.Own (w : World κ δ) (i id : ℕ) : Prop :=
  id = w.nextId ∨ ∃ v t, w.vaults i = some v ∧ v.task = some t ∧ t.id = id

theorem WriterInv.own_ne (h : WriterInv empty base w) {id : ℕ} (hown : w.Own i id) (hj : j ≠ i)
    (hv : w.vaults j = some v) (ht : v.task = some t) : t.id ≠ id := by
  rintro rfl
  rcases hown with hid | ⟨v', t', hv', ht', hid⟩
  · exact absurd (h.tasks j v t hv ht).id_lt (by omega)
  · exact hj (h.distinct j i v v' t t' hv ht hv' ht' hid.symm)

/-- **A step that leaves the file** and concerns the instance `i` alone. -/
theorem WriterInv.frame (h : WriterInv empty base w) (hs : SameFile w w')
    (hn : w.nextId ≤ w'.nextId) (hother : ∀ j, j ≠ i → w'.vaults j = w.vaults j)
    (hlock : ∀ j, j ≠ i → w.lock = some j → w'.lock = some j)
    (hnew : ∀ v t, w'.vaults i = some v → v.task = some t →
      TaskInv empty base w' i v t ∧ w.Own i t.id ∧ ∀ p ∈ w'.outcomes, p ∈ w.outcomes)
    (hout : ∀ p ∈ w'.outcomes, p ∈ w.outcomes ∨
      p.1 < w'.nextId ∧ w'.Settled base p.1 p.2 ∧ w.Own i p.1) : WriterInv empty base w' := by
  have hids : w'.committedIds = w.committedIds := by rw [World.committedIds, hs.commits]; rfl
  have hold (v : Vault κ δ) (t : Task κ δ) (hown : w.Own i t.id) (p : ℕ × Outcome δ)
      (hp : p ∈ w.outcomes) : p.1 ≠ t.id := by
    rcases hown with hid | ⟨v', t', hv', ht', hid⟩
    · exact fun he => absurd (h.outcomes_lt p hp) (by omega)
    · exact hid ▸ h.open_ i v' t' hv' ht' p hp
  refine ⟨?_, hids ▸ h.nodup, fun id hid => ?_, fun p hp => ?_, fun p hp => ?_,
    fun j v t hv ht => ?_, fun j k v v' t t' hv ht hv' ht' hid => ?_, fun j v t hv ht p hp => ?_⟩
  · rw [hs.commits, World.committed, hs.file]
    exact h.chain
  · exact Nat.lt_of_lt_of_le (h.ids_lt id (hids ▸ hid)) hn
  · rcases hout p hp with hp | hp
    exacts [Nat.lt_of_lt_of_le (h.outcomes_lt p hp) hn, hp.1]
  · rcases hout p hp with hp | hp
    exacts [hs.settled.2 (h.outcomes p hp), hp.2.1]
  · by_cases hj : j = i
    · subst hj
      exact (hnew v t hv ht).1
    · rw [hother j hj] at hv
      obtain ⟨h1, h2, h3⟩ := h.tasks j v t hv ht
      exact ⟨Nat.lt_of_lt_of_le h1 hn, fun hc => hlock j hj (h2 hc), hs.progress.2 h3⟩
  · by_cases hj : j = i
    · by_cases hk : k = i
      · rw [hj, hk]
      · rw [hj] at hv
        rw [hother k hk] at hv'
        exact absurd hid.symm (h.own_ne (hnew v t hv ht).2.1 hk hv' ht')
    · rw [hother j hj] at hv
      by_cases hk : k = i
      · rw [hk] at hv'
        exact absurd hid (h.own_ne (hnew v' t' hv' ht').2.1 hj hv ht)
      · rw [hother k hk] at hv'
        exact h.distinct j k v v' t t' hv ht hv' ht' hid
  · by_cases hj : j = i
    · subst hj
      obtain ⟨-, hown, hsub⟩ := hnew v t hv ht
      exact hold v t hown p (hsub p hp)
    · rw [hother j hj] at hv
      rcases hout p hp with hp | ⟨-, -, hown⟩
      · exact h.open_ j v t hv ht p hp
      · exact fun he => h.own_ne hown hj hv ht he.symm

/-- A command goes on. -/
theorem WriterInv.goto (h : WriterInv empty base w) (hv : w.vaults i = some v)
    (ht : v.task = some t) (v' : Vault κ δ) (call : Call) (o : Outcome δ)
    (hlock : call.holdsLock = true → w.lock = some i)
    (hp : w.Progress empty base v' { t with call, outcome := o }) :
    WriterInv empty base (w.goto i v' t call o) := by
  have hsame : SameFile w (w.goto i v' t call o) := ⟨rfl, rfl⟩
  refine h.frame (i := i) hsame (Nat.le_refl _) (fun j hj => update_of_ne hj _ _) (fun _ _ => id) ?_
    fun p hp => .inl hp
  intro v₁ t₁ hv₁ ht₁
  have hvault : (w.goto i v' t call o).vaults i =
      some { v' with task := some { t with call, outcome := o } } := update_self _ _ _
  rw [hvault] at hv₁
  cases hv₁
  cases ht₁
  exact ⟨⟨(h.tasks i v t hv ht).id_lt, hlock, hsame.progress.2 hp⟩, .inr ⟨v, t, hv, ht, rfl⟩,
    fun _ => id⟩

/-- A command ends. -/
theorem WriterInv.finish (h : WriterInv empty base w) (hv : w.vaults i = some v)
    (ht : v.task = some t) (v' : Vault κ δ) (o : Outcome δ) (hs : w.Settled base t.id o) :
    WriterInv empty base (w.finish i v' t o) := by
  have hsame : SameFile w (w.finish i v' t o) := ⟨rfl, rfl⟩
  refine h.frame (i := i) hsame (Nat.le_refl _) (fun j hj => update_of_ne hj _ _) (fun _ _ => id)
    ?_ ?_
  · intro v₁ t₁ hv₁ ht₁
    have hvault : (w.finish i v' t o).vaults i = some { v' with task := none } := update_self _ _ _
    rw [hvault] at hv₁
    cases hv₁
    cases ht₁
  · intro p hp
    rcases List.mem_append.1 hp with hp | hp
    · exact .inl hp
    · rw [List.mem_singleton.1 hp]
      exact .inr ⟨(h.tasks i v t hv ht).id_lt, hsame.settled.2 hs, .inr ⟨v, t, hv, ht, rfl⟩⟩

/-- The lock file is created. -/
theorem WriterInv.acquire (h : WriterInv empty base w) (hfree : w.lock = none) :
    WriterInv empty base { w with lock := some i } := by
  refine ⟨h.chain, h.nodup, h.ids_lt, h.outcomes_lt, h.outcomes, fun j v t hv ht => ?_, h.distinct,
    h.open_⟩
  obtain ⟨h1, h2, h3⟩ := h.tasks j v t hv ht
  refine ⟨h1, fun hc => ?_, h3⟩
  rw [hfree] at h2
  cases h2 hc

/-- The lock file is removed and the command ends. -/
theorem WriterInv.release (h : WriterInv empty base w) (hv : w.vaults i = some v)
    (ht : v.task = some t) (hlock : w.lock = some i) (hs : w.Settled base t.id t.outcome) :
    WriterInv empty base (w.release i v t) := by
  have hsame : SameFile w (w.release i v t) := ⟨rfl, rfl⟩
  refine h.frame (i := i) hsame (Nat.le_refl _) (fun j hj => update_of_ne hj _ _) ?_ ?_ ?_
  · intro j hj hl
    rw [hlock] at hl
    exact absurd (Option.some.inj hl).symm hj
  · intro v₁ t₁ hv₁ ht₁
    have hvault : ∃ x : Vault κ δ, (w.release i v t).vaults i = some { x with task := none } :=
      ⟨_, update_self _ _ _⟩
    obtain ⟨x, hx⟩ := hvault
    rw [hx] at hv₁
    cases hv₁
    cases ht₁
  · intro p hp
    rcases List.mem_append.1 hp with hp | hp
    · exact .inl hp
    · rw [List.mem_singleton.1 hp]
      exact .inr ⟨(h.tasks i v t hv ht).id_lt, hsame.settled.2 hs, .inr ⟨v, t, hv, ht, rfl⟩⟩

/-- **The rename** replaces the file by the operation applied to it. -/
theorem WriterInv.rename (h : WriterInv empty base w) (hv : w.vaults i = some v)
    (ht : v.task = some t) (hlock : w.lock = some i) (hid : t.id ∉ w.committedIds)
    {operation : δ → Effect δ} (hop : operation (w.committed empty).content =
      .returned v.data.content) (hrev : v.data.revision = (w.committed empty).revision + 1)
    (key : κ) : WriterInv empty base (({ w with
      file := some ⟨key, v.data⟩
      commits := w.commits ++ [⟨t.id, operation, w.committed empty, v.data⟩] } :
        World κ δ).goto i v t .syncDirectory t.outcome) := by
  generalize hw' : (({ w with
    file := some ⟨key, v.data⟩
    commits := w.commits ++ [⟨t.id, operation, w.committed empty, v.data⟩] } :
      World κ δ).goto i v t .syncDirectory t.outcome) = w'
  have hcommits : w'.commits = w.commits ++ [⟨t.id, operation, w.committed empty, v.data⟩] := by
    rw [← hw']; rfl
  have hids : w'.committedIds = w.committedIds ++ [t.id] := by
    rw [World.committedIds, hcommits, List.map_append]; rfl
  have hself : w'.vaults i =
      some { v with task := some { t with call := .syncDirectory } } := by
    rw [← hw']; exact update_self _ _ _
  have hother (j : ℕ) (hj : j ≠ i) : w'.vaults j = w.vaults j := by
    rw [← hw']; exact update_of_ne hj _ _
  have hrest : w'.nextId = w.nextId ∧ w'.outcomes = w.outcomes ∧ w'.lock = w.lock := by
    rw [← hw']; exact ⟨rfl, rfl, rfl⟩
  obtain ⟨hnext, hout, hl⟩ := hrest
  have hmem (id : ℕ) (hne : id ≠ t.id) : id ∈ w'.committedIds ↔ id ∈ w.committedIds := by
    rw [hids, List.mem_append, List.mem_singleton]
    exact ⟨fun h => h.resolve_right hne, .inl⟩
  have hheld (d : Data δ) (hd : w.Held base d) : w'.Held base d := by
    rcases hd with hd | ⟨c, hc, hd⟩
    · exact .inl hd
    · exact .inr ⟨c, by rw [hcommits]; exact List.mem_append_left _ hc, hd⟩
  have htid := (h.tasks i v t hv ht).id_lt
  -- what the tasks after the step are
  have htask (j : ℕ) (x : Vault κ δ) (y : Task κ δ) (hx : w'.vaults j = some x)
      (hy : x.task = some y) : j = i ∧ y = { t with call := .syncDirectory } ∨
        j ≠ i ∧ w.vaults j = some x ∧ y.id ≠ t.id := by
    by_cases hj : j = i
    · rw [hj, hself] at hx
      cases hx
      cases hy
      exact .inl ⟨hj, rfl⟩
    · rw [hother j hj] at hx
      exact .inr ⟨hj, hx, fun he => hj (h.distinct j i x v y t hx hy hv ht he)⟩
  refine ⟨?_, ?_, fun id hid' => ?_, fun p hp => ?_, fun p hp => ?_, fun j x y hx hy => ?_,
    fun j k x x' y y' hx hy hx' hy' he => ?_, fun j x y hx hy p hp => ?_⟩
  · have hcommitted : w'.committed empty = v.data := by rw [← hw']; rfl
    rw [hcommits, hcommitted]
    exact h.chain.concat rfl hop hrev
  · rw [hids]
    exact List.nodup_append.2 ⟨h.nodup, by simp, by
      intro a ha b hb
      rw [List.mem_singleton.1 hb]
      exact fun he => hid (he ▸ ha)⟩
  · rw [hids, List.mem_append, List.mem_singleton] at hid'
    rw [hnext]
    exact hid'.elim (h.ids_lt id) fun he => he ▸ htid
  · rw [hnext]
    exact h.outcomes_lt p (hout ▸ hp)
  · have hset := h.outcomes p (hout ▸ hp)
    have hne := h.open_ i v t hv ht p (hout ▸ hp)
    cases ho : p.2 <;> rw [ho] at hset <;> simp only [World.Settled, hmem p.1 hne] at hset ⊢
    · exact hset
    · exact ⟨hset.1, hheld _ hset.2⟩
    · exact hset
  · rcases htask j x y hx hy with ⟨rfl, rfl⟩ | ⟨hj, hx, hne⟩
    · refine ⟨hnext ▸ htid, fun _ => hl.trans hlock, ?_⟩
      show t.id ∈ w'.committedIds
      rw [hids]
      exact List.mem_append_right _ (List.mem_singleton_self _)
    · obtain ⟨h1, h2, h3⟩ := h.tasks j x y hx hy
      have hfree : y.call.holdsLock = false := by
        rw [← Bool.not_eq_true]
        intro hc
        rw [hlock] at h2
        exact hj (Option.some.inj (h2 hc)).symm
      refine ⟨hnext ▸ h1, fun hc => (by rw [hfree] at hc; cases hc), ?_⟩
      cases hc : y.call <;> rw [hc] at hfree <;> cases hfree <;>
        simp only [World.Progress, hc, hmem y.id hne] at h3 ⊢ <;> exact h3
  · rcases htask j x y hx hy with ⟨rfl, rfl⟩ | ⟨hj, hx, hne⟩ <;>
      rcases htask k x' y' hx' hy' with ⟨rfl, rfl⟩ | ⟨hk, hx', hne'⟩
    · rfl
    · exact absurd he.symm hne'
    · exact absurd he hne
    · exact h.distinct j k x x' y y' hx hy hx' hy' he
  · rw [hout] at hp
    rcases htask j x y hx hy with ⟨rfl, rfl⟩ | ⟨hj, hx, -⟩
    · exact h.open_ j v t hv ht p hp
    · exact h.open_ j x y hx hy p hp

/-- `operation()` runs on the data that was loaded. -/
theorem WriterInv.operate (h : WriterInv empty base w) (hv : w.vaults i = some v)
    (ht : v.task = some t) (hid : t.id ∉ w.committedIds)
    (hlock : t.command ≠ .read → w.lock = some i) :
    WriterInv empty base (w.operate i v t (w.committed empty)) := by
  rw [World.operate]
  cases hc : t.command with
  | read =>
    exact h.finish hv ht _ _ ⟨hid, h.chain.last⟩
  | createBackup =>
    rw [hc] at hlock
    exact h.goto hv ht _ _ _ (fun _ => hlock (by simp)) ⟨hid, h.chain.last⟩
  | mutate operation newKey =>
    rw [hc] at hlock
    dsimp only
    cases hop : operation (w.committed empty).content with
    | returned content =>
      exact h.goto hv ht _ _ _ (fun _ => hlock (by simp))
        ⟨hid, operation, newKey, hc, hop, rfl⟩
    | threw content =>
      exact h.goto hv ht _ _ _ (fun _ => hlock (by simp)) hid

/-- A `VaultWriteError`; the catch clause loads again. -/
theorem WriterInv.unconfirmed (h : WriterInv empty base w) (hv : w.vaults i = some v)
    (ht : v.task = some t) (hlock : w.lock = some i) : WriterInv empty base (w.unconfirmed i v t) :=
  h.goto hv ht _ _ _ (fun _ => hlock) trivial

/-- A new command. -/
theorem WriterInv.start (h : WriterInv empty base w) (hv : w.vaults i = some v)
    (ht : v.task = none) (command : Command κ δ) : WriterInv empty base (w.start i v command) := by
  have hnew : w.nextId ∉ w.committedIds := fun hmem => Nat.lt_irrefl _ (h.ids_lt _ hmem)
  have hgoto (call : Call) (hc : call.holdsLock = false)
      (hp : w.Progress empty base v ⟨w.nextId, command, call, .threw⟩) :
      WriterInv empty base (({ w with nextId := w.nextId + 1 } : World κ δ).goto i v
        ⟨w.nextId, command, call, .threw⟩ call .threw) := by
    refine h.frame (i := i) ⟨rfl, rfl⟩ (Nat.le_succ _) (fun j hj => update_of_ne hj _ _)
      (fun _ _ => id) ?_ fun p hp => .inl hp
    intro v₁ t₁ hv₁ ht₁
    have hvault : (({ w with nextId := w.nextId + 1 } : World κ δ).goto i v
        ⟨w.nextId, command, call, .threw⟩ call .threw).vaults i =
          some { v with task := some ⟨w.nextId, command, call, .threw⟩ } := update_self _ _ _
    rw [hvault] at hv₁
    cases hv₁
    cases ht₁
    refine ⟨⟨Nat.lt_succ_self _, fun hc' => ?_, ?_⟩, .inl rfl, fun _ => id⟩
    · rw [hc] at hc'
      cases hc'
    · have hsame : SameFile w (({ w with nextId := w.nextId + 1 } : World κ δ).goto i v
          ⟨w.nextId, command, call, .threw⟩ call .threw) := ⟨rfl, rfl⟩
      exact hsame.progress.2 hp
  rw [World.start.eq_def]
  cases command with
  | read => exact hgoto .existsToRead rfl ⟨hnew, rfl⟩
  | createBackup => exact hgoto .mkdir rfl hnew
  | mutate operation newKey =>
    cases v.writeUnconfirmed with
    | false => exact hgoto .mkdir rfl hnew
    | true =>
      refine h.frame (i := i) ⟨rfl, rfl⟩ (Nat.le_succ _) (fun _ _ => rfl) (fun _ _ => id) ?_ ?_
      · intro v₁ t₁ hv₁ ht₁
        have hsame : some v₁ = some v := hv₁.symm.trans hv
        cases hsame
        rw [ht] at ht₁
        cases ht₁
      · intro p hp
        rcases List.mem_append.1 hp with hp | hp
        · exact .inl hp
        · rw [List.mem_singleton.1 hp]
          exact .inr ⟨Nat.lt_succ_self _, trivial, .inl rfl⟩

/-- An instance that comes or goes. -/
theorem WriterInv.set (h : WriterInv empty base w) {v : Option (Vault κ δ)}
    (hv : ∀ x, v = some x → x.task = none) : WriterInv empty base (w.set i v) := by
  refine h.frame (i := i) ⟨rfl, rfl⟩ (Nat.le_refl _) (fun j hj => update_of_ne hj _ _)
    (fun _ _ => id) ?_ fun p hp => .inl hp
  intro v₁ t₁ hv₁ ht₁
  have hvault : (w.set i v).vaults i = v := update_self _ _ _
  rw [hvault] at hv₁
  rw [hv v₁ hv₁] at ht₁
  cases ht₁

theorem holds_eq_true : w.holds i = true ↔
    ∃ v t, w.vaults i = some v ∧ v.task = some t ∧ t.call.holdsLock = true := by
  simp only [World.holds, Option.any_eq_true]
  constructor
  · rintro ⟨v, hv, t, ht, hc⟩
    exact ⟨v, t, hv, ht, hc⟩
  · rintro ⟨v, t, hv, ht, hc⟩
    exact ⟨v, hv, t, ht, hc⟩

/-- The lock file of an owner that does not run is removed. -/
theorem WriterInv.removeLock (h : WriterInv empty base w)
    (hidle : (w.lock.all fun i => !w.holds i) = true) :
    WriterInv empty base { w with lock := none } := by
  refine ⟨h.chain, h.nodup, h.ids_lt, h.outcomes_lt, h.outcomes, fun j v t hv ht => ?_, h.distinct,
    h.open_⟩
  obtain ⟨h1, h2, h3⟩ := h.tasks j v t hv ht
  refine ⟨h1, fun hc => ?_, h3⟩
  have hholds : w.holds j = true := holds_eq_true.2 ⟨v, t, hv, ht, hc⟩
  rw [h2 hc, Option.all_some, hholds] at hidle
  cases hidle

/-- An `existsSync` that answers `false`. -/
theorem committed_of_none (h : w.file.isSome ≠ true) : w.committed empty = ⟨0, empty⟩ := by
  have hnone : w.file = none := by simpa using h
  rw [World.committed, hnone]
  rfl

/-- The call that an instance is about to make. -/
def World.callOf (w : World κ δ) (i : ℕ) : Option Call :=
  (w.vaults i).bind fun v => v.task.map Task.call

theorem callOf_eq (hv : w.vaults i = some v) (ht : v.task = some t) : w.callOf i = some t.call := by
  rw [World.callOf, hv, Option.bind_some, ht, Option.map_some]

/-- The `existsSync` of a load whose data are used does not miss the file. -/
def Seen (w : World κ δ) : Action κ δ → Prop
  | .call i ok => ok = false → w.file.isSome = true →
      w.callOf i ≠ some .exists_ ∧ w.callOf i ≠ some .existsToRead
  | _ => True

instance (w : World κ δ) : DecidablePred (Seen w)
  | .call i ok => inferInstanceAs (Decidable (ok = false → w.file.isSome = true →
      w.callOf i ≠ some .exists_ ∧ w.callOf i ≠ some .existsToRead))
  | .create .. | .start .. | .crash .. | .removeLock => isTrue trivial

variable [DecidableEq κ]

theorem decrypt_of_ok {ok : Bool} {key : κ} {data : Data δ}
    (h : (if ok = true then w.decrypt key else none) = some data) : data = w.committed empty := by
  split_ifs at h
  exact decrypt_eq h

/-- **A file-system call** keeps the invariant. -/
theorem WriterInv.call (h : WriterInv empty base w) (hv : w.vaults i = some v)
    (ht : v.task = some t) {ok : Bool} (hseen : Seen w (.call i ok)) :
    WriterInv empty base (w.call empty i v t ok) := by
  obtain ⟨hid, hlock, hprog⟩ := h.tasks i v t hv ht
  unfold World.call
  cases hc : t.call <;> simp only [World.Progress, hc] at hprog <;> rw [hc] at hlock <;> dsimp only
  case mkdir =>
    cases ok
    · exact h.finish hv ht _ _ hprog
    · exact h.goto hv ht _ _ _ (fun hc => by cases hc) hprog
  case openLock =>
    cases ok
    · exact h.finish hv ht _ _ hprog
    · rw [if_neg (by simp)]
      by_cases hl : w.lock.isSome = true
      · rw [if_pos hl]
        exact h
      · rw [if_neg hl]
        have hfree : w.lock = none := by simpa using hl
        exact (h.acquire hfree).goto hv ht _ _ _ (fun _ => rfl) hprog
  case writeLock =>
    have hl := hlock rfl
    cases hcmd : t.command <;> cases ok
    · exact h.unconfirmed hv ht hl
    · exact h.goto hv ht _ _ _ (fun _ => hl) hprog
    · exact h.unconfirmed hv ht hl
    · exact h.goto hv ht _ _ _ (fun _ => hl) hprog
    · exact h.goto hv ht _ _ _ (fun _ => hl) trivial
    · exact h.goto hv ht _ _ _ (fun _ => hl) hprog
  case exists_ =>
    split_ifs with hf
    · exact h.goto hv ht _ _ _ (fun _ => hlock rfl) hprog
    · have hnone : w.file.isSome ≠ true := by
        intro hsome
        have hfail : ok = false := by
          cases ok
          · rfl
          · exact absurd ⟨rfl, hsome⟩ hf
        exact (hseen hfail hsome).1 (hc ▸ callOf_eq hv ht)
      rw [← committed_of_none hnone]
      exact h.operate hv ht hprog fun _ => hlock rfl
  case readFile =>
    have hl := hlock rfl
    cases hd : (if ok = true then w.decrypt v.key else none) with
    | some data =>
      rw [decrypt_of_ok hd]
      exact h.operate hv ht hprog fun _ => hl
    | none => cases t.command <;> exact h.goto hv ht _ _ _ (fun _ => hl) hprog
  case encrypt =>
    cases ok
    · exact h.goto hv ht _ _ _ (fun _ => hlock rfl) hprog.1
    · exact h.goto hv ht _ _ _ (fun _ => hlock rfl) hprog
  case writeTemp =>
    cases ok
    · exact h.unconfirmed hv ht (hlock rfl)
    · exact h.goto hv ht _ _ _ (fun _ => hlock rfl) hprog
  case rename =>
    obtain ⟨hnew, operation, newKey, hcmd, hop, hrev⟩ := hprog
    rw [hcmd]
    cases ok
    · exact h.unconfirmed hv ht (hlock rfl)
    · exact h.rename hv ht (hlock rfl) hnew hop hrev _
  case syncDirectory =>
    cases ok
    · exact h.unconfirmed hv ht (hlock rfl)
    · exact h.goto hv ht _ _ _ (fun _ => hlock rfl) hprog
  case existsAgain =>
    split_ifs <;> exact h.goto hv ht _ _ _ (fun _ => hlock rfl) hprog
  case readAgain =>
    cases (if ok = true then w.decrypt v.key else none) <;>
      exact h.goto hv ht _ _ _ (fun _ => hlock rfl) hprog
  case writeBackup =>
    cases ok
    · exact h.goto hv ht _ _ _ (fun _ => hlock rfl) hprog.1
    · exact h.goto hv ht _ _ _ (fun _ => hlock rfl) hprog
  case closeLock =>
    split_ifs
    · exact h.finish hv ht _ _ trivial
    · exact h.finish hv ht _ _ trivial
    · next hretain =>
      exact h.goto hv ht _ _ _ (fun _ => hlock rfl) ⟨hprog, Bool.eq_false_iff.2 hretain⟩
  case unlinkLock =>
    cases ok
    · exact h.finish hv ht _ _ trivial
    · exact h.release hv ht (hlock rfl) hprog.1
  case existsToRead =>
    split_ifs with hf
    · exact h.goto hv ht _ _ _ (fun hc => by cases hc) hprog
    · have hnone : w.file.isSome ≠ true := by
        intro hsome
        have hfail : ok = false := by
          cases ok
          · rfl
          · exact absurd ⟨rfl, hsome⟩ hf
        exact (hseen hfail hsome).2 (hc ▸ callOf_eq hv ht)
      rw [← committed_of_none hnone]
      exact h.operate hv ht hprog.1 fun hne => absurd hprog.2 hne
  case readToRead =>
    cases hd : (if ok = true then w.decrypt v.key else none) with
    | some data =>
      rw [decrypt_of_ok hd]
      exact h.operate hv ht hprog.1 fun hne => absurd hprog.2 hne
    | none => exact h.finish hv ht _ _ hprog.1

/-- What a step does. -/
inductive Stepped (empty : δ) (w : World κ δ) : Action κ δ → World κ δ → Prop
  | create {i : ℕ} {key : κ} {existsOk readOk : Bool} (data : Data δ) :
    Stepped empty w (.create i key existsOk readOk) (w.set i (some ⟨key, data, false, none⟩))
  | start {i : ℕ} {command : Command κ δ} {v : Vault κ δ} (hv : w.vaults i = some v)
    (ht : v.task = none) : Stepped empty w (.start i command) (w.start i v command)
  | call {i : ℕ} {ok : Bool} {v : Vault κ δ} {t : Task κ δ} (hv : w.vaults i = some v)
    (ht : v.task = some t) : Stepped empty w (.call i ok) (w.call empty i v t ok)
  | crash {i : ℕ} : Stepped empty w (.crash i) (w.set i none)
  | removeLock (hidle : (w.lock.all fun i => !w.holds i) = true) :
    Stepped empty w .removeLock { w with lock := none }

theorem of_guard {p : Prop} [Decidable p] {x : Unit} (h : (guard p : Option Unit) = some x) : p := by
  by_contra hn
  have hnone : (guard p : Option Unit) = none := if_neg hn
  rw [hnone] at h
  cases h

theorem stepped {a : Action κ δ} (h : step empty w a = some w') : Stepped empty w a w' := by
  cases a <;> simp only [step, Option.bind_eq_bind, Option.bind_eq_some_iff, Option.pure_def,
    Option.some.injEq] at h
  case create =>
    obtain ⟨_, -, data, -, rfl⟩ := h
    exact .create data
  case start =>
    obtain ⟨v, hv, _, hidle, rfl⟩ := h
    exact .start hv (Option.isNone_iff_eq_none.1 (of_guard hidle))
  case call =>
    obtain ⟨v, hv, t, ht, rfl⟩ := h
    exact .call hv ht
  case crash =>
    rw [← h]
    exact .crash
  case removeLock =>
    obtain ⟨_, hidle, rfl⟩ := h
    exact .removeLock (of_guard hidle)

/-- **Every step** keeps the invariant. -/
theorem WriterInv.step {a : Action κ δ} (h : WriterInv empty base w) (hs : Stepped empty w a w')
    (hseen : Seen w a) : WriterInv empty base w' := by
  cases hs with
  | create data => exact h.set fun x hx => by rw [← Option.some.inj hx]
  | start hv ht => exact h.start hv ht _
  | call hv ht => exact h.call hv ht hseen
  | crash => exact h.set fun x hx => by cases hx
  | removeLock hidle => exact h.removeLock hidle

/-! ## What a call does -/

/-- The command commits. -/
def Commits (empty : δ) (w : World κ δ) (id : ℕ) (command : Command κ δ) (w' : World κ δ) : Prop :=
  ∃ operation newKey key post, command = .mutate operation newKey ∧
    w'.file = some ⟨key, post⟩ ∧
    w'.commits = w.commits ++ [⟨id, operation, w.committed empty, post⟩]

/-- A call concerns its own command, commits at most that, and when it ends it unconfirmed
    the lock file stays. -/
structure CallEffect (empty : δ) (w : World κ δ) (i : ℕ) (t : Task κ δ) (w' : World κ δ) :
    Prop where
  others : ∀ j, j ≠ i → w'.vaults j = w.vaults j
  task : ∀ v' t', w'.vaults i = some v' → v'.task = some t' →
    t'.id = t.id ∧ t'.command = t.command ∧ w'.outcomes = w.outcomes
  writes : SameFile w w' ∨ Commits empty w t.id t.command w'
  ends : w'.outcomes = w.outcomes ∨ ∃ o, w'.outcomes = w.outcomes ++ [(t.id, o)] ∧
    (o = .unconfirmed → w'.lock = w.lock ∧ t.call.holdsLock = true)

omit [DecidableEq κ] in
theorem effect_of_goto {w₁ : World κ δ} (hv : w₁.vaults = w.vaults)
    (ho : w₁.outcomes = w.outcomes) (hw : SameFile w w₁ ∨ Commits empty w t.id t.command w₁)
    (v' : Vault κ δ) (call : Call) (o : Outcome δ) :
    CallEffect empty w i t (w₁.goto i v' t call o) := by
  refine ⟨fun j hj => (update_of_ne hj _ _).trans (congrFun hv j), fun v₁ t₁ hv₁ ht₁ => ?_,
    hw.imp (fun h => ⟨h.file, h.commits⟩) id, .inl ho⟩
  have hself : (w₁.goto i v' t call o).vaults i =
      some { v' with task := some { t with call, outcome := o } } := update_self _ _ _
  rw [hself] at hv₁
  cases hv₁
  cases ht₁
  exact ⟨rfl, rfl, ho⟩

omit [DecidableEq κ] in
theorem effect_of_finish {lock : Option ℕ} (v' : Vault κ δ) (o : Outcome δ)
    (ho : o = .unconfirmed → lock = w.lock ∧ t.call.holdsLock = true) :
    CallEffect empty w i t (({ w with lock } : World κ δ).finish i v' t o) := by
  refine ⟨fun j hj => update_of_ne hj _ _, fun v₁ t₁ hv₁ ht₁ => ?_, .inl ⟨rfl, rfl⟩,
    .inr ⟨o, rfl, ho⟩⟩
  have hself : (({ w with lock } : World κ δ).finish i v' t o).vaults i =
      some { v' with task := none } := update_self _ _ _
  rw [hself] at hv₁
  cases hv₁
  cases ht₁

omit [DecidableEq κ] in
theorem effect_of_operate (v' : Vault κ δ) (data : Data δ) :
    CallEffect empty w i t (w.operate i v' t data) := by
  rw [World.operate]
  cases t.command with
  | read => exact effect_of_finish _ _ fun ho => by cases ho
  | createBackup => exact effect_of_goto rfl rfl (.inl ⟨rfl, rfl⟩) _ _ _
  | mutate operation newKey =>
    dsimp only
    cases operation data.content <;> exact effect_of_goto rfl rfl (.inl ⟨rfl, rfl⟩) _ _ _

theorem WriterInv.effect (h : WriterInv empty base w) (hv : w.vaults i = some v)
    (ht : v.task = some t) (ok : Bool) : CallEffect empty w i t (w.call empty i v t ok) := by
  have hprog := (h.tasks i v t hv ht).progress
  have hgoto (v' : Vault κ δ) (call : Call) (o : Outcome δ) :
      CallEffect empty w i t (w.goto i v' t call o) :=
    effect_of_goto rfl rfl (.inl ⟨rfl, rfl⟩) _ _ _
  have hthrow (v' : Vault κ δ) : CallEffect empty w i t (w.finish i v' t .threw) :=
    effect_of_finish _ _ fun ho => by cases ho
  have hleave (v' : Vault κ δ) (hc : t.call.holdsLock = true) :
      CallEffect empty w i t (w.finish i v' t .unconfirmed) :=
    effect_of_finish _ _ fun _ => ⟨rfl, hc⟩
  unfold World.call
  cases hc : t.call <;> rw [World.Progress, hc] at hprog <;> dsimp only
  case openLock =>
    split_ifs
    · exact hthrow _
    · refine ⟨fun _ _ => rfl, fun v' t' hv' ht' => ?_, .inl ⟨rfl, rfl⟩, .inl rfl⟩
      rw [hv] at hv'
      cases hv'
      rw [ht] at ht'
      cases ht'
      exact ⟨rfl, rfl, rfl⟩
    · refine effect_of_goto ?_ ?_ (.inl ⟨?_, ?_⟩) _ _ _ <;> rfl
  case rename =>
    cases hcmd : t.command with
    | mutate operation newKey =>
      cases ok
      · exact hgoto _ _ _
      · refine effect_of_goto ?_ ?_ (.inr ⟨operation, newKey, newKey.getD v.key, v.data,
          hcmd, ?_, ?_⟩) _ _ _ <;> rfl
    | read => exact hgoto _ _ _
    | createBackup => exact hgoto _ _ _
  case closeLock =>
    split_ifs
    · exact hleave _ (by rw [hc]; rfl)
    · exact hleave _ (by rw [hc]; rfl)
    · exact hgoto _ _ _
  case unlinkLock =>
    cases ok
    · exact hleave _ (by rw [hc]; rfl)
    · refine effect_of_finish _ _ fun ho => ?_
      have hretain := hprog.2
      rw [ho] at hretain
      cases hretain
  all_goals (try split)
  all_goals first
    | exact hgoto _ _ _
    | exact hthrow _
    | exact effect_of_operate _ _

/-! ## Lock files that are left -/

/-- A lock file whose owner does not run any more. -/
def World.Abandoned (w : World κ δ) : Prop := w.lock.isSome = true ∧ ∀ j, w.holds j = false

omit [DecidableEq κ] in
theorem holds_eq_false : w.holds i = false ↔
    ∀ v t, w.vaults i = some v → v.task = some t → t.call.holdsLock = false := by
  rw [← Bool.not_eq_true, holds_eq_true]
  constructor
  · intro h v t hv ht
    exact Bool.eq_false_iff.2 fun hc => h ⟨v, t, hv, ht, hc⟩
  · rintro h ⟨v, t, hv, ht, hc⟩
    rw [h v t hv ht] at hc
    cases hc

omit [DecidableEq κ] in
/-- The other instances do not hold the lock when one instance does. -/
theorem WriterInv.holds_other (h : WriterInv empty base w) (hi : w.holds i = true)
    (hj : j ≠ i) : w.holds j = false := by
  obtain ⟨v, t, hv, ht, hc⟩ := holds_eq_true.1 hi
  rw [← Bool.not_eq_true, holds_eq_true]
  rintro ⟨v', t', hv', ht', hc'⟩
  have hli := (h.tasks i v t hv ht).lock hc
  rw [(h.tasks j v' t' hv' ht').lock hc'] at hli
  exact hj (Option.some.inj hli)

omit [DecidableEq κ] in
theorem holds_of_vaults (h : w'.vaults j = w.vaults j) : w'.holds j = w.holds j := by
  rw [World.holds, World.holds, h]

omit [DecidableEq κ] in
/-- A step of one instance that does not come to hold the lock. -/
theorem World.Abandoned.frame (h : w.Abandoned) (hlock : w'.lock = w.lock)
    (hother : ∀ j, j ≠ i → w'.vaults j = w.vaults j) (hi : w'.holds i = false) : w'.Abandoned := by
  refine ⟨hlock ▸ h.1, fun j => ?_⟩
  by_cases hj : j = i
  · rw [hj, hi]
  · rw [holds_of_vaults (hother j hj), h.2 j]

omit [DecidableEq κ] in
theorem holds_set (v : Vault κ δ) : (w.set i (some v)).holds i =
    v.task.any fun t => t.call.holdsLock := by
  have hself : (w.set i (some v)).vaults i = some v := update_self _ _ _
  rw [World.holds, hself]
  rfl

omit [DecidableEq κ] in
theorem holds_set_none : (w.set i none).holds i = false := by
  have hself : (w.set i none).vaults i = none := update_self _ _ _
  rw [World.holds, hself]
  rfl

omit [DecidableEq κ] in
theorem World.Abandoned.goto (h : w.Abandoned) (v' : Vault κ δ) {call : Call} (o : Outcome δ)
    (hc : call.holdsLock = false) : (w.goto i v' t call o).Abandoned ∧
      SameFile w (w.goto i v' t call o) := by
  refine ⟨h.frame (i := i) rfl (fun j hj => update_of_ne hj _ _) ?_, rfl, rfl⟩
  rw [World.goto, holds_set]
  exact hc

omit [DecidableEq κ] in
theorem World.Abandoned.finish (h : w.Abandoned) (v' : Vault κ δ) (o : Outcome δ) :
    (w.finish i v' t o).Abandoned ∧ SameFile w (w.finish i v' t o) := by
  refine ⟨h.frame (i := i) rfl (fun j hj => update_of_ne hj _ _) ?_, rfl, rfl⟩
  exact holds_set { v' with task := none }

/-- The calls of an instance that does not hold the lock. -/
theorem WriterInv.abandoned_call (h : WriterInv empty base w) (hab : w.Abandoned)
    (hv : w.vaults i = some v) (ht : v.task = some t) (ok : Bool) :
    (w.call empty i v t ok).Abandoned ∧ SameFile w (w.call empty i v t ok) := by
  have hprog := (h.tasks i v t hv ht).progress
  have hfree := holds_eq_false.1 (hab.2 i) v t hv ht
  have hread (hr : t.command = .read) (data : Data δ) :
      (w.operate i v t data).Abandoned ∧ SameFile w (w.operate i v t data) := by
    rw [World.operate, hr]
    exact hab.finish _ _
  unfold World.call
  cases hc : t.call <;> rw [hc] at hfree <;> cases hfree <;> rw [World.Progress, hc] at hprog <;>
    dsimp only
  case mkdir =>
    cases ok
    · exact hab.finish _ _
    · exact hab.goto _ _ rfl
  case openLock =>
    cases ok
    · exact hab.finish _ _
    · rw [if_neg (by simp), if_pos hab.1]
      exact ⟨hab, rfl, rfl⟩
  case existsToRead =>
    split_ifs
    · exact hab.goto _ _ rfl
    · exact hread hprog.2 _
  case readToRead =>
    split
    · exact hread hprog.2 _
    · exact hab.finish _ _

/-- **While the lock file is left** nothing is written. -/
theorem WriterInv.abandoned_step {a : Action κ δ} (h : WriterInv empty base w) (hab : w.Abandoned)
    (hs : Stepped empty w a w') (ha : a ≠ .removeLock) : w'.Abandoned ∧ SameFile w w' := by
  cases hs with
  | create data =>
    exact ⟨hab.frame rfl (fun j hj => update_of_ne hj _ _) (holds_set _), rfl, rfl⟩
  | @start i command v hv ht =>
    have hnext : ({ w with nextId := w.nextId + 1 } : World κ δ).Abandoned := hab
    have hgoto (call : Call) (hc : call.holdsLock = false) :=
      hnext.goto (i := i) (t := ⟨w.nextId, command, call, .threw⟩) v .threw hc
    rw [World.start.eq_def]
    cases command with
    | read => exact ⟨(hgoto .existsToRead rfl).1, rfl, rfl⟩
    | createBackup => exact ⟨(hgoto .mkdir rfl).1, rfl, rfl⟩
    | mutate operation newKey =>
      cases v.writeUnconfirmed with
      | false => exact ⟨(hgoto .mkdir rfl).1, rfl, rfl⟩
      | true => exact ⟨hab, rfl, rfl⟩
  | call hv ht => exact h.abandoned_call hab hv ht _
  | @crash i =>
    refine ⟨hab.frame rfl (fun j hj => update_of_ne hj _ _) ?_, rfl, rfl⟩
    exact holds_set_none
  | removeLock => exact absurd rfl ha

/-- The step leaves the lock file: its owner crashes, or could not confirm a write. -/
def LeavesLock (w : World κ δ) (a : Action κ δ) (w' : World κ δ) : Prop :=
  match a with
  | .crash i => w.holds i = true
  | .call _ _ => ∃ id, w'.outcomes = w.outcomes ++ [(id, .unconfirmed)]
  | _ => False

theorem WriterInv.leaves {a : Action κ δ} (h : WriterInv empty base w) (hs : Stepped empty w a w')
    (hl : LeavesLock w a w') : w'.Abandoned := by
  cases hs with
  | @crash i =>
    obtain ⟨v, t, hv, ht, hc⟩ := holds_eq_true.1 hl
    have hlock := (h.tasks i v t hv ht).lock hc
    refine ⟨by rw [World.set, hlock]; rfl, fun j => ?_⟩
    by_cases hj : j = i
    · rw [hj]
      exact holds_set_none
    · rw [holds_of_vaults (update_of_ne hj _ _)]
      exact h.holds_other hl hj
  | @call i ok v t hv ht =>
    obtain ⟨id, hid⟩ := hl
    have heff := h.effect hv ht ok
    have hne : (w.call empty i v t ok).outcomes ≠ w.outcomes := by
      rw [hid]
      simp
    obtain ⟨o, ho, hun⟩ := heff.ends.resolve_left hne
    obtain ⟨-, hlast⟩ := List.append_inj' (hid.symm.trans ho) rfl
    obtain ⟨hlock, hc⟩ := hun (congrArg Prod.snd (List.cons.inj hlast).1).symm
    have hi : w.holds i = true := holds_eq_true.2 ⟨v, t, hv, ht, hc⟩
    refine ⟨by rw [hlock, (h.tasks i v t hv ht).lock hc]; rfl, fun j => ?_⟩
    by_cases hj : j = i
    · rw [hj, holds_eq_false]
      intro v' t' hv' ht'
      exact absurd (heff.task v' t' hv' ht').2.2 hne
    · rw [holds_of_vaults (heff.others j hj)]
      exact h.holds_other hi hj
  | create | start | removeLock => cases hl

/-! ## Runs -/

variable {es : List (Machine.Entry (World κ δ) (Action κ δ) Unit)}

omit [DecidableEq κ] in
/-- The operation was started under this id. -/
def Started (es : List (Machine.Entry (World κ δ) (Action κ δ) Unit)) (id : ℕ)
    (command : Command κ δ) : Prop :=
  ∃ e ∈ es, e.pre.nextId = id ∧ ∃ i, e.act = .start i command

omit [DecidableEq κ] in
theorem Started.append {id : ℕ} {command : Command κ δ} (h : Started es id command)
    (e : Machine.Entry (World κ δ) (Action κ δ) Unit) : Started (es ++ [e]) id command := by
  obtain ⟨e', he', h⟩ := h
  exact ⟨e', List.mem_append_left _ he', h⟩

/-- A new task is the command of the step. -/
theorem WriterInv.started {a : Action κ δ} (h : WriterInv empty base w) (hs : Stepped empty w a w')
    (hv : w'.vaults i = some v') (ht : v'.task = some t') :
    (∃ v t, w.vaults i = some v ∧ v.task = some t ∧ t'.id = t.id ∧ t'.command = t.command) ∨
      t'.id = w.nextId ∧ a = .start i t'.command := by
  have hother {j : ℕ} (h' : ∀ k, k ≠ j → w'.vaults k = w.vaults k) (hj : i ≠ j) :
      ∃ v t, w.vaults i = some v ∧ v.task = some t ∧ t'.id = t.id ∧ t'.command = t.command :=
    ⟨v', t', (h' i hj).symm.trans hv, ht, rfl, rfl⟩
  cases hs with
  | @create j key _ _ data =>
    by_cases hj : i = j
    · subst hj
      have hself : (w.set i (some ⟨key, data, false, none⟩)).vaults i = _ := update_self _ _ _
      rw [hself] at hv
      cases hv
      cases ht
    · exact .inl (hother (fun k hk => update_of_ne hk _ _) hj)
  | @crash j =>
    by_cases hj : i = j
    · subst hj
      have hself : (w.set i none).vaults i = none := update_self _ _ _
      rw [hself] at hv
      cases hv
    · exact .inl (hother (fun k hk => update_of_ne hk _ _) hj)
  | @call j ok v t hv₁ ht₁ =>
    have heff := h.effect hv₁ ht₁ ok
    by_cases hj : i = j
    · subst hj
      obtain ⟨hid, hcmd, -⟩ := heff.task v' t' hv ht
      exact .inl ⟨v, t, hv₁, ht₁, hid, hcmd⟩
    · exact .inl (hother heff.others hj)
  | removeLock => exact .inl ⟨v', t', hv, ht, rfl, rfl⟩
  | @start j command v hv₁ ht₁ =>
    have hgoto (call : Call) (hv : (({ w with nextId := w.nextId + 1 } : World κ δ).goto j v
        ⟨w.nextId, command, call, .threw⟩ call .threw).vaults i = some v') :
        (∃ v t, w.vaults i = some v ∧ v.task = some t ∧ t'.id = t.id ∧ t'.command = t.command) ∨
          t'.id = w.nextId ∧ Action.start j command = .start i t'.command := by
      by_cases hj : i = j
      · subst hj
        have hself : (({ w with nextId := w.nextId + 1 } : World κ δ).goto i v
            ⟨w.nextId, command, call, .threw⟩ call .threw).vaults i =
              some { v with task := some ⟨w.nextId, command, call, .threw⟩ } := update_self _ _ _
        rw [hself] at hv
        cases hv
        cases ht
        exact .inr ⟨rfl, rfl⟩
      · exact .inl ⟨v', t', (update_of_ne hj _ _).symm.trans hv, ht, rfl, rfl⟩
    rw [World.start.eq_def] at hv
    cases command with
    | read => exact hgoto .existsToRead hv
    | createBackup => exact hgoto .mkdir hv
    | mutate operation newKey =>
      cases hun : v.writeUnconfirmed <;> rw [hun] at hv
      · exact hgoto .mkdir hv
      · exact .inl ⟨v', t', hv, ht, rfl, rfl⟩

theorem WriterInv.writes {a : Action κ δ} (h : WriterInv empty base w)
    (hs : Stepped empty w a w') :
    SameFile w w' ∨ ∃ i v t, w.vaults i = some v ∧ v.task = some t ∧
      Commits empty w t.id t.command w' := by
  cases hs with
  | @start i command v _ _ =>
    refine .inl ?_
    rw [World.start.eq_def]
    cases command with
    | mutate => cases v.writeUnconfirmed <;> exact ⟨rfl, rfl⟩
    | read | createBackup => exact ⟨rfl, rfl⟩
  | @call i ok v t hv ht => exact (h.effect hv ht ok).writes.imp id fun hw => ⟨i, v, t, hv, ht, hw⟩
  | create | crash | removeLock => exact .inl ⟨rfl, rfl⟩

end

/-- **Serialisable**: the commits form a chain in which every operation that was started and
    succeeded is applied once, to the data just before it; nothing else changes the file; and
    a lock file that is left stops every commit. -/
structure Serialisable [DecidableEq κ] (empty : δ) (base : Data δ)
    (es : List (Machine.Entry (World κ δ) (Action κ δ) Unit)) (w : World κ δ) : Prop where
  chain : Chain base w.commits (w.committed empty)
  once : w.committedIds.Nodup
  settled : ∀ p ∈ w.outcomes, w.Settled base p.1 p.2
  writes : ∀ e ∈ es, SameFile e.pre e.post ∨ ∃ id command,
    Started es id command ∧ Commits empty e.pre id command e.post
  abandoned : ∀ es₁ e es₂, es = es₁ ++ e :: es₂ → LeavesLock e.pre e.act e.post →
    (∀ e' ∈ es₂, e'.act ≠ .removeLock) → SameFile e.post w

section
variable [DecidableEq κ] {file : Option (Envelope κ δ)} {w : World κ δ}
  {es : List (Machine.Entry (World κ δ) (Action κ δ) Unit)}

theorem stepped_of_isStep {e : Machine.Entry (World κ δ) (Action κ δ) Unit}
    (h : (machine empty).IsStep e) : Stepped empty e.pre e.act e.post := by
  have hs : ((step empty e.pre e.act).map fun w' => (w', ())).elim (.error ()) .ok =
      (.ok (e.post, e.out) : Except Unit _) := h
  cases hw : step empty e.pre e.act with
  | none =>
    rw [hw] at hs
    cases hs
  | some w' =>
    rw [hw] at hs
    cases hs
    exact stepped hw

omit [DecidableEq κ] in
theorem writerInv_initial : WriterInv empty ((initial file).committed empty) (initial file) := by
  refine ⟨rfl, List.nodup_nil, ?_, ?_, ?_, ?_, ?_, ?_⟩
  · intro id hid
    cases hid
  · intro p hp
    cases hp
  · intro p hp
    cases hp
  · intro i v t hv
    cases hv
  · intro i j v v' t t' hv
    cases hv
  · intro i v t hv
    cases hv

theorem writerInv_run (h : (machine empty).Run (initial file) es w)
    (hseen : ∀ e ∈ es, Seen e.pre e.act) : WriterInv empty ((initial file).committed empty) w :=
  h.invariant_where writerInv_initial
    (fun _ hp hi hs => hi.step (stepped_of_isStep hs) hp) hseen

/-- The tasks of a run were started. -/
theorem started_run (h : (machine empty).Run (initial file) es w)
    (hseen : ∀ e ∈ es, Seen e.pre e.act) :
    ∀ i v t, w.vaults i = some v → v.task = some t → Started es t.id t.command := by
  refine (h.history (H := fun es w => (∀ e ∈ es, Seen e.pre e.act) → ∀ i v t,
    w.vaults i = some v → v.task = some t → Started es t.id t.command) ?_ ?_) hseen
  · intro _ i v t hv
    cases hv
  · intro es e hr ih hstep hseen i v t hv ht
    have hpre : ∀ e ∈ es, Seen e.pre e.act := fun e' he' => hseen e' (List.mem_append_left _ he')
    rcases (writerInv_run hr hpre).started (stepped_of_isStep hstep) hv ht with
      ⟨v', t', hv', ht', hid, hcmd⟩ | ⟨hid, hact⟩
    · rw [hid, hcmd]
      exact (ih hpre i v' t' hv' ht').append e
    · exact ⟨e, List.mem_append_right _ (List.mem_singleton_self e), hid.symm, i, hact⟩

/-- **Vault writes are serialisable** in every run in which `existsSync` never misses the
    file. -/
theorem vault_writes_serialisable (h : (machine empty).Run (initial file) es w)
    (hseen : ∀ e ∈ es, Seen e.pre e.act) :
    Serialisable empty ((initial file).committed empty) es w := by
  have hinv := writerInv_run h hseen
  refine ⟨hinv.chain, hinv.nodup, hinv.outcomes, fun e he => ?_, fun es₁ e es₂ heq hl hrem => ?_⟩
  · obtain ⟨es₁, es₂, rfl, hr, hs, -⟩ := h.of_mem he
    have hpre : ∀ e ∈ es₁, Seen e.pre e.act := fun e he => hseen e (List.mem_append_left _ he)
    refine ((writerInv_run hr hpre).writes (stepped_of_isStep hs)).imp id ?_
    rintro ⟨i, v, t, hv, ht, hw⟩
    obtain ⟨e', he', hstart⟩ := started_run hr hpre i v t hv ht
    exact ⟨t.id, t.command, ⟨e', List.mem_append_left _ he', hstart⟩, hw⟩
  · subst heq
    obtain ⟨hr, hs, hrest⟩ := h.split
    have hpre : ∀ e ∈ es₁, Seen e.pre e.act := fun e he => hseen e (List.mem_append_left _ he)
    have hpost : ∀ e' ∈ es₂, Seen e'.pre e'.act ∧ e'.act ≠ .removeLock := fun e' he' =>
      ⟨hseen e' (List.mem_append_right _ (List.mem_cons_of_mem e he')), hrem e' he'⟩
    have he := writerInv_run hr hpre
    have hsee : Seen e.pre e.act := hseen e (List.mem_append_right _ List.mem_cons_self)
    -- from here on the lock file is left
    have hkeep := hrest.invariant_where
      (I := fun w => WriterInv empty ((initial file).committed empty) w ∧ w.Abandoned ∧
        SameFile e.post w)
      ⟨he.step (stepped_of_isStep hs) hsee, he.leaves (stepped_of_isStep hs) hl, rfl, rfl⟩
      (fun e' hp hi hs' => by
        obtain ⟨hab, hsame⟩ := hi.1.abandoned_step hi.2.1 (stepped_of_isStep hs') hp.2
        exact ⟨hi.1.step (stepped_of_isStep hs') hp.1, hab, hsame.file.trans hi.2.2.file,
          hsame.commits.trans hi.2.2.commits⟩) hpost
    exact hkeep.2.2

end

/-! ## Two instances -/

/-- Instance 1 and instance 2 each add to the number in the file. -/
def addTwice (existsOk : Bool) : List (Action Unit ℕ) :=
  let add (n : ℕ) : Command Unit ℕ := .mutate (fun c => .returned (c + n)) none
  [.create 1 () true true, .create 2 () true true, .start 1 (add 1), .start 2 (add 10)] ++
    List.replicate 11 (.call 1 true) ++ List.replicate 3 (.call 2 true) ++
    .call 2 existsOk :: List.replicate 7 (.call 2 true)

theorem vault_writes_serialisable_two :
    Serialisable 0 ⟨3, 100⟩
        ((machine 0).trace (initial (some ⟨(), ⟨3, 100⟩⟩)) (addTwice true))
        ((machine 0).final (initial (some ⟨(), ⟨3, 100⟩⟩)) (addTwice true)) ∧
      ((machine 0).final (initial (some ⟨(), ⟨3, 100⟩⟩)) (addTwice true)).file =
        some ⟨(), ⟨5, 111⟩⟩ :=
  ⟨@vault_writes_serialisable Unit ℕ 0 _ (some ⟨(), ⟨3, 100⟩⟩) _ _
      ((machine 0).run_trace _ (addTwice true)) (by decide +kernel),
    by decide +kernel⟩

/-- An `existsSync` that fails writes the second operation over an empty vault. -/
theorem vault_write_lost :
    let es := (machine 0).trace (initial (some ⟨(), ⟨3, 100⟩⟩)) (addTwice false)
    let w := (machine 0).final (initial (some ⟨(), ⟨3, 100⟩⟩)) (addTwice false)
    (machine 0).Run (initial (some ⟨(), ⟨3, 100⟩⟩)) es w ∧
      w.outcomes = [(0, .returned), (1, .returned)] ∧ w.file = some ⟨(), ⟨1, 10⟩⟩ ∧
      ¬ Serialisable 0 ⟨3, 100⟩ es w := by
  refine ⟨(machine 0).run_trace _ _, by decide +kernel, by decide +kernel, fun hs => ?_⟩
  exact absurd hs.chain.revision (by decide +kernel)

end VaultWriter

end Proofmark
