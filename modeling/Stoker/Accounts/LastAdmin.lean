import Stoker.Accounts.Users

/-!
# An administrator remains

The check that an administrator is left and the commit it guards are two steps, and another request
may commit between them. What a request knows once it has loaded its user, that somebody else can
manage the users, stays true as long as nobody takes that somebody away: two requests that take a
manager away from the table have to be about the same user or one after the other.
-/

open List

namespace Stoker

open Transition

/-! ### What a commit does to the administrators -/

namespace UserTable

/-- Every active administrator of the one table is one in the other. -/
def Survive (t t' : UserTable) : Prop :=
  ∀ u ∈ t.rows, u.ActiveAdmin → ∃ v ∈ t'.rows, v.ActiveAdmin ∧ v.id = u.id

variable {t t' : UserTable} {id : ℕ}

lemma Survive.hasAdmin (h : Survive t t') (ht : t.HasAdmin) : t'.HasAdmin := by
  obtain ⟨u, hu, ha⟩ := ht
  obtain ⟨v, hv, hva, -⟩ := h u hu ha
  exact ⟨v, hv, hva⟩

lemma Survive.otherAdmin (h : Survive t t') (ht : t.OtherAdmin id) :
    t'.OtherAdmin id := by
  obtain ⟨u, hu, ha, hne⟩ := ht
  obtain ⟨v, hv, hva, hid⟩ := h u hu ha
  exact ⟨v, hv, hva, hid ▸ hne⟩

lemma OtherAdmin.hasAdmin (h : t.OtherAdmin id) : t.HasAdmin := by
  obtain ⟨u, hu, ha, -⟩ := h
  exact ⟨u, hu, ha⟩

lemma mem_update (t : UserTable) (id : ℕ) (f : User → User) (hf : ∀ u, (f u).id = u.id) {u : User}
    (hu : u ∈ t.rows) : (if u.id = id then f u else u) ∈ (t.update id f hf).rows :=
  mem_map_of_mem hu

end UserTable

open UserTable

lemma column_eq {α : Type} [DecidableEq α] {loaded edited stored x : α}
    (h : edited = loaded ∨ edited = x) (hs : stored = x) : column loaded edited stored = x := by
  unfold column
  split
  · exact hs
  · next hne => exact h.resolve_left hne

lemma flush_activeAdmin {hashPassword : String → String} {body : UserUpdate} {loaded stored : User}
    (hb : (body.demoting || body.deactivating) = false) (h : stored.ActiveAdmin) :
    (flush loaded (body.apply hashPassword loaded) stored).ActiveAdmin := by
  obtain ⟨hdem, hdeact⟩ := Bool.or_eq_false_iff.mp hb
  constructor
  · refine column_eq ?_ h.1
    rcases hr : body.role with _ | r
    · exact .inl (by simp [UserUpdate.apply, hr])
    · exact .inr (by simpa [UserUpdate.apply, UserUpdate.demoting, hr] using hdem)
  · refine column_eq ?_ h.2
    rcases hr : body.active with _ | b
    · exact .inl (by simp [UserUpdate.apply, hr])
    · exact .inr (by simpa [UserUpdate.apply, UserUpdate.deactivating, hr] using hdeact)

section Commit

variable {hashPassword : String → String} {request : UserRequest} {user : User} {t : UserTable}

lemma mem_commitUser {u : User} (hu : u ∈ t.rows) (hne : u.id ≠ user.id) :
    u ∈ (commitUser hashPassword request user t).1.rows := by
  cases request with
  | update body =>
    simp only [commitUser]
    split
    · exact hu
    · have hmem := mem_update t user.id (flush user (body.apply hashPassword user))
          (fun _ => rfl) hu
      rwa [if_neg hne] at hmem
  | delete => exact mem_filter.mpr ⟨hu, by simpa using hne⟩

lemma survive_of_not_takesAway (hr : request.takesAway = false) :
    Survive t (commitUser hashPassword request user t).1 := by
  intro u hu ha
  cases request with
  | delete => simp [UserRequest.takesAway] at hr
  | update body =>
    simp only [commitUser]
    split
    · exact ⟨u, hu, ha, rfl⟩
    · refine ⟨_, mem_update t user.id (flush user _) (fun _ => rfl) hu, ?_⟩
      split
      · exact ⟨flush_activeAdmin hr ha, rfl⟩
      · exact ⟨ha, rfl⟩

/-- A request about somebody who is no active administrator takes none away. -/
lemma survive_of_not_activeAdmin (hu : ∀ u ∈ t.rows, u.ActiveAdmin → u.id ≠ user.id) :
    Survive t (commitUser hashPassword request user t).1 := by
  intro u hmem ha
  exact ⟨u, mem_commitUser hmem (hu u hmem ha), ha, rfl⟩

lemma OtherAdmin.commitUser (h : t.OtherAdmin user.id) :
    (commitUser hashPassword request user t).1.OtherAdmin user.id := by
  obtain ⟨u, hu, ha, hne⟩ := h
  exact ⟨u, mem_commitUser hu hne, ha, hne⟩

end Commit

/-! ### What a request may rely on -/

/-- The check leaves somebody other than the user to manage the users, if the request could take a
manager away and its user was one. -/
lemma checkUser_ok {t : UserTable} {caller : Caller} {request : UserRequest} {user : User}
    (h : checkUser t caller request user = .ok ()) (hr : request.takesAway = true)
    (ha : user.ActiveAdmin) : t.OtherAdmin user.id := by
  rw [← adminCount_pos, Nat.pos_iff_ne_zero]
  intro h0
  cases request with
  | update body =>
    have hg : (body.demoting || body.deactivating) = true ∧ user.ActiveAdmin := ⟨hr, ha⟩
    simp only [checkUser, if_pos hg, if_pos h0, reduceCtorEq] at h
  | delete =>
    by_cases hself : caller = .account user.id <;> simp [checkUser, hself, ha, h0] at h

/-- What stands behind a request on its way: the account it came with is an active administrator,
and once it has loaded a user that is none, or has been cleared, somebody else is one. -/
def UserCall.Backed (t : UserTable) (c : UserCall) : Prop :=
  match c.stage with
  | .admitted account => ∀ u ∈ account, u.ActiveAdmin
  | .loaded u => u.id = c.userId ∧
      (c.request.takesAway = true → ¬u.ActiveAdmin → t.OtherAdmin c.userId)
  | .cleared u => u.id = c.userId ∧ (c.request.takesAway = true → t.OtherAdmin c.userId)
  | .answered _ => True

/-- Between its load and its commit. -/
def UserCall.isOpen (c : UserCall) : Bool :=
  match c.stage with
  | .loaded _ | .cleared _ => true
  | .admitted _ | .answered _ => false

namespace Directory

/-- An administrator exists and every request is backed. -/
structure Held (s : Directory) : Prop where
  hasAdmin : s.users.HasAdmin
  backed : ∀ c ∈ s.calls, c.Backed s.users

/-- No request that takes an active administrator away is committed while another that could take
one away, a different one, is between its load and its commit. -/
def Apart (e : UserStep) (s : Directory) : Prop :=
  match e with
  | .commit i =>
    match s.calls[i]? with
    | some c =>
      c.request.takesAway = true → (∃ u ∈ s.users.rows, u.ActiveAdmin ∧ u.id = c.userId) →
        ∀ d ∈ s.calls, d.isOpen = true → d.request.takesAway = true → d.userId = c.userId
    | none => True
  | .arrive .. | .load _ | .check _ => True

instance (e : UserStep) (s : Directory) : Decidable (Apart e s) :=
  match e with
  | .commit i =>
    match h : s.calls[i]? with
    | some c => decidable_of_iff (c.request.takesAway = true →
        (∃ u ∈ s.users.rows, u.ActiveAdmin ∧ u.id = c.userId) →
        ∀ d ∈ s.calls, d.isOpen = true → d.request.takesAway = true → d.userId = c.userId)
        (by simp only [Apart, h])
    | none => isTrue (by simp only [Apart, h])
  | .arrive .. | .load _ | .check _ => isTrue trivial

variable {s : Directory} {t : UserTable} {c : UserCall}

lemma Held.advance {i : ℕ} {stage : Stage} {users : UserTable} (hadmin : users.HasAdmin)
    (hothers : ∀ d ∈ s.calls, d.Backed users)
    (hc : UserCall.Backed users { c with stage := stage }) :
    Held ({ s with users := users }.advance i c stage) := by
  refine ⟨hadmin, ?_⟩
  intro d hd
  rcases mem_or_eq_of_mem_set hd with hmem | rfl
  · exact hothers d hmem
  · exact hc

lemma backed_mono {t' : UserTable} (h : c.Backed t)
    (hkeep : c.isOpen = true → c.request.takesAway = true → t.OtherAdmin c.userId →
      t'.OtherAdmin c.userId) :
    c.Backed t' := by
  obtain ⟨caller, userId, request, stage⟩ := c
  cases stage with
  | admitted account => exact h
  | loaded u => exact ⟨h.1, fun hr hna => hkeep rfl hr (h.2 hr hna)⟩
  | cleared u => exact ⟨h.1, fun hr => hkeep rfl hr (h.2 hr)⟩
  | answered a => trivial

variable {account : Option User}

lemma requireAdmin_ok {caller : Caller} (h : requireAdmin t caller = .ok account) :
    ∀ u ∈ account, u.ActiveAdmin := by
  intro u hu
  cases caller with
  | token role =>
    simp only [requireAdmin] at h
    split at h
    · cases h
    · cases h
      cases hu
  | account id =>
    simp only [requireAdmin] at h
    split at h
    · cases h
    · next v _ =>
      split_ifs at h with hactive hrole
      cases h
      cases hu
      exact ⟨by simpa using hrole, by simpa using hactive⟩

/-- A loaded user is the one asked for; unless it is an active administrator, somebody else is. -/
lemma loadUser_some {userId : ℕ} {u : User} (hacc : ∀ u ∈ account, u.ActiveAdmin)
    (ht : t.HasAdmin) (h : loadUser t account userId = some u) :
    u.id = userId ∧ (¬u.ActiveAdmin → t.OtherAdmin userId) := by
  have hget : t.get userId = some u → u.id = userId ∧ (¬u.ActiveAdmin → t.OtherAdmin userId) :=
    fun hu => ⟨(get_eq_some.mp hu).2, fun hna => ht.other hu hna⟩
  cases account with
  | none => exact hget h
  | some v =>
    simp only [loadUser] at h
    split at h
    · next hid =>
      cases h
      exact ⟨hid, fun hna => absurd (hacc u rfl) hna⟩
    · exact hget h

variable {hashPassword : String → String}

/-- A commit, taken apart from other removals, leaves an administrator and every request backed. -/
lemma Held.commitUser {request : UserRequest} {user : User} (h : Held s)
    (hother : request.takesAway = true → s.users.OtherAdmin user.id)
    (hapart : request.takesAway = true → (∃ u ∈ s.users.rows, u.ActiveAdmin ∧ u.id = user.id) →
      ∀ d ∈ s.calls, d.isOpen = true → d.request.takesAway = true → d.userId = user.id) :
    (commitUser hashPassword request user s.users).1.HasAdmin ∧
      ∀ d ∈ s.calls, d.Backed (commitUser hashPassword request user s.users).1 := by
  by_cases hr : request.takesAway = true ∧ ∃ u ∈ s.users.rows, u.ActiveAdmin ∧ u.id = user.id
  · -- the commit may take its user away: every other request that relies on somebody relies
    -- on somebody other than this user
    have hleft : (Stoker.commitUser hashPassword request user s.users).1.OtherAdmin user.id :=
      OtherAdmin.commitUser (hother hr.1)
    refine ⟨hleft.hasAdmin, fun d hd => backed_mono (h.backed d hd) ?_⟩
    intro hopen htakes _
    exact hapart hr.1 hr.2 d hd hopen htakes ▸ hleft
  · have hsurv : Survive s.users (Stoker.commitUser hashPassword request user s.users).1 := by
      by_cases htakes : request.takesAway = true
      · refine survive_of_not_activeAdmin ?_
        intro u hu ha hne
        exact hr ⟨htakes, u, hu, ha, hne⟩
      · exact survive_of_not_takesAway (by simpa using htakes)
    exact ⟨hsurv.hasAdmin h.hasAdmin, fun d hd => backed_mono (h.backed d hd) fun _ _ =>
      hsurv.otherAdmin⟩

lemma Held.step {e : UserStep} (hg : Apart e s) (h : Held s) : Held (step hashPassword e s) := by
  cases e with
  | arrive caller userId request =>
    refine ⟨h.hasAdmin, ?_⟩
    intro d hd
    simp only [Directory.step, mem_append, mem_singleton] at hd
    rcases hd with hd | rfl
    · exact h.backed d hd
    · cases hadm : requireAdmin s.users caller with
      | error e => trivial
      | ok account => exact requireAdmin_ok hadm
  | load i =>
    simp only [Directory.step]
    split
    · next caller userId request account hcall =>
      have hbacked := h.backed _ (mem_of_getElem? hcall)
      refine Held.advance h.hasAdmin h.backed ?_
      cases hload : loadUser s.users account userId with
      | none => trivial
      | some u =>
        obtain ⟨hid, hother⟩ := loadUser_some hbacked h.hasAdmin hload
        exact ⟨hid, fun _ => hother⟩
    · exact h
  | check i =>
    simp only [Directory.step]
    split
    · next caller userId request user hcall =>
      obtain ⟨hid, hother⟩ := h.backed _ (mem_of_getElem? hcall)
      refine Held.advance h.hasAdmin h.backed ?_
      cases hcheck : checkUser s.users caller request user with
      | error e => trivial
      | ok _ =>
        refine ⟨hid, fun hr => ?_⟩
        by_cases ha : user.ActiveAdmin
        · exact hid ▸ checkUser_ok hcheck hr ha
        · exact hother hr ha
    · exact h
  | commit i =>
    simp only [Directory.step]
    split
    · next caller userId request user hcall =>
      obtain ⟨hid, hother⟩ := h.backed _ (mem_of_getElem? hcall)
      simp only [Apart, hcall] at hg
      subst hid
      obtain ⟨hadmin, hbacked⟩ := h.commitUser hother hg
      exact Held.advance hadmin hbacked trivial
    · exact h

end Directory

/-! ### Every interleaving -/

/-- Once an active administrator exists there always is one, in every interleaving of updates and
deletions in which no two removals of different administrators overlap. -/
theorem admin_remains {hashPassword : String → String} {s t : Directory} {steps : List UserStep}
    (hidle : s.calls = []) (hadmin : s.users.HasAdmin)
    (h : Runs (Directory.step hashPassword) Directory.Apart s steps t) : t.users.HasAdmin := by
  have hstart : Directory.Held s := ⟨hadmin, by simp [hidle]⟩
  exact (h.invariant (I := Directory.Held) (fun _ _ hg hs => hs.step hg) hstart).hasAdmin

/-! ### Two administrators demote each other -/

/-- Two active administrators, who are all there are. -/
def twoAdmins : Directory where
  users := ⟨[{ id := 1, username := "first", role := .admin },
    { id := 2, username := "second", role := .admin }], by decide⟩

def demote (caller userId : ℕ) : UserStep :=
  .arrive (.account caller) userId (.update { role := some .viewer })

/-- One after the other, the second request finds the caller to be no administrator any more. -/
theorem admin_remains_one_by_one :
    (exec (Directory.step id) twoAdmins [demote 1 2, .load 0, .check 0, .commit 0, demote 2 1,
      .load 1, .check 1, .commit 1]).users.HasAdmin :=
  admin_remains rfl (by decide) (Runs.of_check (by decide +kernel))

/-- Each finds the other still there, and nobody is left. -/
theorem admins_demote_each_other :
    twoAdmins.calls = [] ∧ twoAdmins.users.HasAdmin ∧
      ¬(exec (Directory.step id) twoAdmins [demote 1 2, demote 2 1, .load 0, .load 1, .check 0,
        .check 1, .commit 0, .commit 1]).users.HasAdmin := by
  decide +kernel

end Stoker
