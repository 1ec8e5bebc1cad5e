import Stoker.Server.Apportion

/-!
# Stored shares

The operations on a lease's `share_json`: what a worker is told (`publicShare`), the retarget
marker that makes the next heartbeat push a new share, and the private keys a heartbeat's optional
declarations leave behind.
-/

namespace Stoker

/-- `public_share`: the share without its private keys. -/
def publicShare (share : ShareJson) : PublicShare := share.pub

/-- `dict(new_share)` as a whole `share_json`: no private key survives. -/
def ShareJson.ofPublic (share : PublicShare) : ShareJson := { pub := share }

/-- `mark_retarget`: write the share, stamp the marker, carry the worker-reported keys over. -/
def markRetarget (share : PublicShare) (lease : Lease) : Lease :=
  { lease with share := { lease.share with pub := share, retarget := true } }

def clearRetarget (lease : Lease) : Lease :=
  { lease with share := { lease.share with retarget := false } }

/-- The lease's share is replaced in place, private keys kept: the claimer's case of
`_reapportion_on_takeover`. -/
def writeShare (share : PublicShare) (lease : Lease) : Lease :=
  { lease with share := { lease.share with pub := share } }

/-- A takeover drops the lapsed holder's assigned-work declaration. -/
def dropAssigned (share : ShareJson) : ShareJson :=
  { share with assignedWork := none, assignedReason := none }

def assignedReasonMax : ℕ := 300

/-- `store_assigned_work`: a declaration without `assigned_work` changes nothing. -/
def storeAssignedWork (assigned : Option ℤ) (reason : Option String) (lease : Lease) : Lease :=
  match assigned with
  | none => lease
  | some n =>
    let reason := if 0 < n then none
        else reason.map fun r => String.ofList (r.toList.take assignedReasonMax)
    { lease with share := { lease.share with assignedWork := some n, assignedReason := reason } }

def EngineImpl.parse : String → Option EngineImpl
  | "firebox" => some .firebox
  | "python" => some .python
  | _ => none

def Envelope.parse : String → Option Envelope
  | "hec" => some .hec
  | "stoker" => some .stoker
  | _ => none

/-- `store_engine_report`: an absent or unknown implementation changes nothing, an unknown
envelope is dropped. -/
def storeEngineReport (impl envelope : Option String) (lease : Lease) : Lease :=
  match impl.bind EngineImpl.parse with
  | none => lease
  | some i =>
    { lease with share :=
        { lease.share with engineImpl := some i, envelope := envelope.bind Envelope.parse } }

def assignShares (f : PublicShare → Lease → Lease) (slots : List ℕ) (shares : List PublicShare)
    (leases : List Lease) : List Lease :=
  leases.map fun l =>
    match (slots.zip shares).lookup l.slot with
    | none => l
    | some share => f share l

/-! ### What a lease keeps -/

/-- The columns that identify a lease row: its slot, its current id and its holder. -/
def Lease.ident (l : Lease) : ℕ × LeaseId × Option String := (l.slot, l.leaseId, l.holder)

section

variable (l : Lease) (share : PublicShare)

@[simp] lemma markRetarget_ident : (markRetarget share l).ident = l.ident := rfl
@[simp] lemma markRetarget_slot : (markRetarget share l).slot = l.slot := rfl
@[simp] lemma markRetarget_pub : (markRetarget share l).share.pub = share := rfl

end

lemma storeAssignedWork_frame (n : Option ℤ) (r : Option String) (l : Lease) :
    (storeAssignedWork n r l).ident = l.ident ∧ (storeAssignedWork n r l).state = l.state ∧
      (storeAssignedWork n r l).share.pub = l.share.pub ∧
      (storeAssignedWork n r l).share.retarget = l.share.retarget := by
  cases n <;> exact ⟨rfl, rfl, rfl, rfl⟩

lemma storeEngineReport_frame (i e : Option String) (l : Lease) :
    (storeEngineReport i e l).ident = l.ident ∧ (storeEngineReport i e l).state = l.state ∧
      (storeEngineReport i e l).share.pub = l.share.pub ∧
      (storeEngineReport i e l).share.retarget = l.share.retarget := by
  unfold storeEngineReport
  cases i.bind EngineImpl.parse <;> exact ⟨rfl, rfl, rfl, rfl⟩

end Stoker
