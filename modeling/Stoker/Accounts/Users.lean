import Stoker.Transition.Runs
import Stoker.Server.Release

/-!
# User accounts

The user table and the two requests that change a row of it (`server/routes/auth.py`), cut at the
points where another request can come between: a request is let in, loads the user it is about,
checks that an administrator is left, and commits. Each of these reads what is committed at that
moment; what it has loaded stays as it was loaded.
-/

open List

namespace Stoker

inductive Role where
  | viewer
  | operator
  | admin
  deriving DecidableEq

inductive UserSource where
  | local
  | proxy
  deriving DecidableEq

structure User where
  id : ℕ
  username : String
  passwordHash : Option String := none
  email : Option String := none
  role : Role := .operator
  source : UserSource := .local
  active : Bool := true
  deriving DecidableEq

/-- An account that can manage the others. -/
def User.ActiveAdmin (u : User) : Prop := u.role = .admin ∧ u.active = true

instance (u : User) : Decidable u.ActiveAdmin := inferInstanceAs (Decidable (_ ∧ _))

/-! ### The table -/

/-- The `users` table: `id` is its primary key. -/
structure UserTable where
  rows : List User
  key : (rows.map User.id).Nodup

namespace UserTable

/-- `db.get(User, id)`, from what is committed. -/
def get (t : UserTable) (id : ℕ) : Option User := t.rows.find? (·.id = id)

def adminCount (t : UserTable) (excludeId : ℕ) : ℕ :=
  t.rows.countP fun u => u.ActiveAdmin ∧ u.id ≠ excludeId

def update (t : UserTable) (id : ℕ) (f : User → User) (hf : ∀ u, (f u).id = u.id) : UserTable where
  rows := t.rows.map fun u => if u.id = id then f u else u
  key := by
    have hid : ∀ u : User, (if u.id = id then f u else u).id = u.id := by
      intro u
      split
      · exact hf u
      · rfl
    simpa only [map_map, Function.comp_def, hid] using t.key

/-- `DELETE FROM users WHERE id = …`. -/
def delete (t : UserTable) (id : ℕ) : UserTable where
  rows := t.rows.filter (·.id ≠ id)
  key := t.key.sublist (filter_sublist.map _)

/-- Somebody can manage the users. -/
def HasAdmin (t : UserTable) : Prop := ∃ u ∈ t.rows, u.ActiveAdmin

/-- Somebody other than `id` can. -/
def OtherAdmin (t : UserTable) (id : ℕ) : Prop := ∃ u ∈ t.rows, u.ActiveAdmin ∧ u.id ≠ id

instance (t : UserTable) : Decidable t.HasAdmin := inferInstanceAs (Decidable (∃ u ∈ t.rows, _))

instance (t : UserTable) (id : ℕ) : Decidable (t.OtherAdmin id) :=
  inferInstanceAs (Decidable (∃ u ∈ t.rows, _))

variable {t : UserTable} {id : ℕ} {u : User}

lemma adminCount_pos : 0 < t.adminCount id ↔ t.OtherAdmin id := by
  simp [adminCount, OtherAdmin, countP_pos_iff]

lemma get_eq_some : t.get id = some u ↔ u ∈ t.rows ∧ u.id = id := by
  constructor
  · intro h
    exact ⟨mem_of_find?_eq_some h, by simpa using find?_some h⟩
  · rintro ⟨hu, rfl⟩
    obtain ⟨v, hv⟩ : ∃ v, t.get u.id = some v := by
      rw [← Option.isSome_iff_exists, get, find?_isSome]
      exact ⟨u, hu, by simp⟩
    have hmem := mem_of_find?_eq_some hv
    have hid : v.id = u.id := by simpa using find?_some hv
    rw [hv, inj_on_of_nodup_map t.key hmem hu hid]

/-- A user that is no active administrator is not the one there is. -/
lemma HasAdmin.other (h : t.HasAdmin) (hu : t.get id = some u) (hna : ¬u.ActiveAdmin) :
    t.OtherAdmin id := by
  obtain ⟨a, ha, hadmin⟩ := h
  refine ⟨a, ha, hadmin, ?_⟩
  intro hid
  have hget : t.get id = some a := get_eq_some.mpr ⟨ha, hid⟩
  rw [hu, Option.some.injEq] at hget
  exact hna (hget ▸ hadmin)

end UserTable

/-! ### Requests -/

/-- `UserUpdate`: an unset role, flag or password and one sent as null come to the same, an email
may be set to null. -/
structure UserUpdate where
  role : Option Role := none
  password : Option String := none
  active : Option Bool := none
  email : Option (Option String) := none
  deriving DecidableEq

namespace UserUpdate

def demoting (body : UserUpdate) : Bool := body.role.any (· ≠ .admin)

def deactivating (body : UserUpdate) : Bool := body.active = some false

/-- The assignments of `update_user`. A new password makes the account a local one. -/
def apply (hashPassword : String → String) (body : UserUpdate) (u : User) : User :=
  { u with
    role := body.role.getD u.role
    active := body.active.getD u.active
    email := body.email.getD u.email
    passwordHash := (body.password.map hashPassword).or u.passwordHash
    source := if body.password.isSome then .local else u.source }

end UserUpdate

inductive UserRequest where
  | update (body : UserUpdate)
  | delete
  deriving DecidableEq

/-- Whether a request can take a manager of users away. -/
def UserRequest.takesAway : UserRequest → Bool
  | .update body => body.demoting || body.deactivating
  | .delete => true

/-- Who sends a request: the account of a session, or a token with a role of its own. -/
inductive Caller where
  | account (id : ℕ)
  | token (role : Role)
  deriving DecidableEq

inductive UserAnswer where
  | updated (user : Option User)
  | deleted
  | refused (error : HttpError)
  deriving DecidableEq

/-- How far a request is: let in, with the caller's account in its session, then with the user
loaded, then past the check, then answered. -/
inductive Stage where
  | admitted (account : Option User)
  | loaded (user : User)
  | cleared (user : User)
  | answered (answer : UserAnswer)
  deriving DecidableEq

structure UserCall where
  caller : Caller
  userId : ℕ
  request : UserRequest
  stage : Stage
  deriving DecidableEq

/-- `require_admin`: the account the caller's session has loaded, if it has one. -/
def requireAdmin (t : UserTable) : Caller → Except HttpError (Option User)
  | .account id =>
    match t.get id with
    | none => .error ⟨401, "authentication required"⟩
    | some u =>
      if u.active = false then .error ⟨401, "authentication required"⟩
      else if u.role ≠ .admin then .error ⟨403, "admin role required"⟩
      else .ok (some u)
  | .token role => if role ≠ .admin then .error ⟨403, "admin role required"⟩ else .ok none

/-- `db.get(User, user_id)` in a session that may already hold the row. -/
def loadUser (t : UserTable) (account : Option User) (userId : ℕ) : Option User :=
  match account with
  | some u => if u.id = userId then some u else t.get userId
  | none => t.get userId

def checkUser (t : UserTable) (caller : Caller) (request : UserRequest) (user : User) :
    Except HttpError Unit :=
  match request with
  | .update body =>
    if (body.demoting || body.deactivating) = true ∧ user.ActiveAdmin then
      if t.adminCount user.id = 0 then
        .error ⟨409, "cannot demote or deactivate the last active admin"⟩
      else .ok ()
    else .ok ()
  | .delete =>
    if caller = .account user.id then .error ⟨409, "you cannot delete yourself"⟩
    else if user.ActiveAdmin ∧ t.adminCount user.id = 0 then
      .error ⟨409, "cannot delete the last active admin"⟩
    else .ok ()

def column {α : Type} [DecidableEq α] (loaded edited stored : α) : α :=
  if edited = loaded then stored else edited

/-- What a session writes back of a row it has loaded and edited. -/
def flush (loaded edited stored : User) : User :=
  { stored with
    role := column loaded.role edited.role stored.role
    active := column loaded.active edited.active stored.active
    email := column loaded.email edited.email stored.email
    passwordHash := column loaded.passwordHash edited.passwordHash stored.passwordHash
    source := column loaded.source edited.source stored.source }

/-- The commit of a request and its answer. An update that finds its row gone fails and is rolled
back; a delete that does is done. -/
def commitUser (hashPassword : String → String) (request : UserRequest) (user : User)
    (t : UserTable) : UserTable × UserAnswer :=
  match request with
  | .update body =>
    match t.get user.id with
    | none => (t, .refused ⟨500, "stale row"⟩)
    | some _ =>
      let t' := t.update user.id (flush user (body.apply hashPassword user)) (fun _ => rfl)
      (t', .updated (t'.get user.id))
  | .delete => (t.delete user.id, .deleted)

/-! ### The interleaved requests -/

structure Directory where
  users : UserTable
  calls : List UserCall := []

/-- One request goes on by one step; they are numbered as they arrive. -/
inductive UserStep where
  | arrive (caller : Caller) (userId : ℕ) (request : UserRequest)
  | load (call : ℕ)
  | check (call : ℕ)
  | commit (call : ℕ)
  deriving DecidableEq

namespace Directory

/-- A request that has come to `stage`. -/
def advance (s : Directory) (i : ℕ) (c : UserCall) (stage : Stage) : Directory :=
  { s with calls := s.calls.set i { c with stage := stage } }

def step (hashPassword : String → String) (e : UserStep) (s : Directory) : Directory :=
  match e with
  | .arrive caller userId request =>
    let stage : Stage := match requireAdmin s.users caller with
      | .error e => .answered (.refused e)
      | .ok account => .admitted account
    { s with calls := s.calls ++ [⟨caller, userId, request, stage⟩] }
  | .load i =>
    match s.calls[i]? with
    | some ⟨caller, userId, request, .admitted account⟩ =>
      let stage : Stage := match loadUser s.users account userId with
        | none => .answered (.refused ⟨404, "unknown user"⟩)
        | some u => .loaded u
      s.advance i ⟨caller, userId, request, .admitted account⟩ stage
    | _ => s
  | .check i =>
    match s.calls[i]? with
    | some ⟨caller, userId, request, .loaded user⟩ =>
      let stage : Stage := match checkUser s.users caller request user with
        | .error e => .answered (.refused e)
        | .ok () => .cleared user
      s.advance i ⟨caller, userId, request, .loaded user⟩ stage
    | _ => s
  | .commit i =>
    match s.calls[i]? with
    | some ⟨caller, userId, request, .cleared user⟩ =>
      let (users, answer) := commitUser hashPassword request user s.users
      { s with users := users }.advance i ⟨caller, userId, request, .cleared user⟩
        (.answered answer)
    | _ => s

end Directory

end Stoker
