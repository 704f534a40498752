import LinuxAbi.Lib.Outcome
import Mathlib.Data.BitVec

/-!
# Access checks and attribute changes of inodes

`crates/vfs/src/dac.rs` and `setattr.rs`. User IDs, group IDs and user namespaces are the
consumer's types; a credential view is what the trait `DacCredentials` asks of it. A chmod or
chown plan is made before the inode hook and consumed after it, with the same node, request and
credentials.
-/

namespace LinuxAbi.Vfs

inductive DacCapability
  | override | readSearch | fowner | fsetid | chown
deriving DecidableEq

structure DacCredentials (U G N : Type) where
  fsUserId : U
  fsGroupId : G
  isInGroup : G → Bool
  hasCapability : N → DacCapability → Bool

inductive NodeKind
  | unknown | regular | directory | symlink | fifo | socket | characterDevice | blockDevice
deriving DecidableEq

/-- `Access`: read is 4, write 2, execute 1. -/
structure Access where
  bits : BitVec 8
deriving DecidableEq

def Access.intersects (access other : Access) : Bool := access.bits &&& other.bits != 0

structure NodeMetadata (U G N : Type) where
  mode : BitVec 16
  ownerUser : U
  ownerGroup : G
  kind : NodeKind
  ownerUserNamespace : N
  idsMapped : Bool

inductive DacError
  | accessDenied
  | stickyDenied
deriving DecidableEq

inductive SetattrError
  | chownDenied
  | chmodDenied
deriving DecidableEq

structure ChmodRequest where
  mode : BitVec 16

/-- `MODE_MASK`, `SET_UID`, `SET_GID` and `GROUP_EXECUTE`. -/
def modeMask : BitVec 16 := 0xfff
def setUid : BitVec 16 := 0x800
def setGid : BitVec 16 := 0x400
def groupExecute : BitVec 16 := 0x8

def ChmodRequest.new (mode : BitVec 16) : ChmodRequest := ⟨mode &&& modeMask⟩

structure ChownRequest (U G : Type) where
  user : Option U
  group : Option G

def ChownRequest.isFullyOmitted {U G : Type} (request : ChownRequest U G) : Bool :=
  request.user.isNone && request.group.isNone

structure PreparedSetattr (U G : Type) where
  owner : Option (U × G)
  mode : Option (BitVec 16)
  committedUser : U
  committedGroup : G
  committedMode : BitVec 16
deriving DecidableEq

section Policy

variable {U G N : Type} [DecidableEq U] [DecidableEq G] (node : NodeMetadata U G N)
  (credentials : DacCredentials U G N)

/-! ## Access -/

def grantedAccess : BitVec 8 :=
  if credentials.fsUserId = node.ownerUser then (node.mode >>> 6 &&& 7).setWidth 8
  else if credentials.fsGroupId = node.ownerGroup ∨ credentials.isInGroup node.ownerGroup then
    (node.mode >>> 3 &&& 7).setWidth 8
  else (node.mode &&& 7).setWidth 8

omit [DecidableEq U] [DecidableEq G] in
def capable (capability : DacCapability) : Bool :=
  node.idsMapped && credentials.hasCapability node.ownerUserNamespace capability

def checkDac (requested : Access) : Except DacError Unit :=
  let requestedBits := requested.bits &&& 7
  if requestedBits = 0 ∨ grantedAccess node credentials &&& requestedBits = requestedBits then .ok ()
  else if node.kind = .directory then
    if ¬ requested.intersects ⟨2⟩ ∧ capable node credentials .readSearch then .ok ()
    else if capable node credentials .override then .ok ()
    else .error .accessDenied
  else if requested = ⟨4⟩ ∧ capable node credentials .readSearch then .ok ()
  else if (¬ requested.intersects ⟨1⟩ ∨ node.mode &&& 0x49 ≠ 0)
      ∧ capable node credentials .override then .ok ()
  else .error .accessDenied

/-- `check_sticky_mutation`; `CAP_FOWNER` is asked for over the directory. -/
def checkStickyMutation (directory target : NodeMetadata U G N) : Except DacError Unit :=
  if directory.mode &&& 0x200 = 0 ∨ credentials.fsUserId = directory.ownerUser
      ∨ credentials.fsUserId = target.ownerUser ∨ capable directory credentials .fowner then .ok ()
  else .error .stickyDenied

/-! ## Attribute changes -/

def canPreserveSetgid (group : G) : Bool :=
  credentials.fsGroupId = group || credentials.isInGroup group || capable node credentials .fsetid

def checkChmodPermission : Except SetattrError Unit :=
  if credentials.fsUserId = node.ownerUser ∨ capable node credentials .fowner then .ok ()
  else .error .chmodDenied

def checkChownPermission (request : ChownRequest U G) : Except SetattrError Unit :=
  if request.isFullyOmitted ∨ capable node credentials .chown then .ok ()
  else if credentials.fsUserId ≠ node.ownerUser then .error .chownDenied
  else if request.user.any (· ≠ node.ownerUser) then .error .chownDenied
  else if request.group.any fun group => group ≠ node.ownerGroup
      ∧ group ≠ credentials.fsGroupId ∧ ¬ credentials.isInGroup group then .error .chownDenied
  else .ok ()

/-- The mode that `chown_hook_mode` derives. -/
def killedMode : BitVec 16 :=
  let mode := node.mode &&& ~~~setUid
  if mode &&& groupExecute ≠ 0 ∨ ¬ canPreserveSetgid node credentials node.ownerGroup then
    mode &&& ~~~setGid
  else mode

def chownHookMode : Option (BitVec 16) :=
  if node.kind = .directory ∨ killedMode node credentials = node.mode then none
  else some (killedMode node credentials)

structure ChmodSetattrPlan (U G N : Type) where
  node : NodeMetadata U G N
  request : ChmodRequest
  credentials : DacCredentials U G N

structure ChownSetattrPlan (U G N : Type) where
  node : NodeMetadata U G N
  request : ChownRequest U G
  hookMode : Option (BitVec 16)
  credentials : DacCredentials U G N

def planChmod (request : ChmodRequest) : ChmodSetattrPlan U G N := ⟨node, request, credentials⟩

def planChown (request : ChownRequest U G) : ChownSetattrPlan U G N :=
  ⟨node, request, chownHookMode node credentials, credentials⟩

def ChmodSetattrPlan.prepare (plan : ChmodSetattrPlan U G N) :
    Except SetattrError (PreparedSetattr U G) := do
  checkChmodPermission plan.node plan.credentials
  let mode := if canPreserveSetgid plan.node plan.credentials plan.node.ownerGroup then
    plan.request.mode else plan.request.mode &&& ~~~setGid
  return ⟨none, some mode, plan.node.ownerUser, plan.node.ownerGroup, mode⟩

/-- The implicit mode, checked after the hook against the final group. -/
def ChownSetattrPlan.finalMode (plan : ChownSetattrPlan U G N) (finalGroup : G) :
    Except SetattrError (Option (BitVec 16)) :=
  match plan.hookMode with
  | none => .ok none
  | some mode => do
    checkChmodPermission plan.node plan.credentials
    return some (if canPreserveSetgid plan.node plan.credentials finalGroup then mode
      else mode &&& ~~~setGid)

def ChownSetattrPlan.prepare (plan : ChownSetattrPlan U G N) :
    Except SetattrError (PreparedSetattr U G) := do
  checkChownPermission plan.node plan.credentials plan.request
  let user := plan.request.user.getD plan.node.ownerUser
  let group := plan.request.group.getD plan.node.ownerGroup
  let mode ← plan.finalMode group
  let owner := if plan.request.isFullyOmitted then none else some (user, group)
  return ⟨owner, mode, user, group, mode.getD plan.node.mode⟩

/-! ## Capabilities over unmapped inodes -/

/-- The same credentials with every capability taken away. -/
def DacCredentials.powerless : DacCredentials U G N :=
  { credentials with hasCapability := fun _ _ => false }

omit [DecidableEq U] [DecidableEq G] in
theorem capable_powerless (h : node.idsMapped = false) :
    capable node credentials = capable node credentials.powerless := by
  funext capability
  simp [capable, h]

/-- Access checks, chmod and chown take no capability into account over an inode whose IDs are
not mapped. The sticky check takes none into account exactly where it lets the actor pass
anyway or `CAP_FOWNER` over the directory is missing. -/
theorem unmapped_powerless :
    (node.idsMapped = false →
      (∀ requested, checkDac node credentials requested
        = checkDac node credentials.powerless requested) ∧
      (∀ request, (planChmod node credentials request).prepare
        = (planChmod node credentials.powerless request).prepare) ∧
      ∀ request, (planChown node credentials request).prepare
        = (planChown node credentials.powerless request).prepare) ∧
    ∀ directory, checkStickyMutation credentials directory node
        = checkStickyMutation credentials.powerless directory node ↔
      directory.mode &&& 0x200 = 0 ∨ credentials.fsUserId = directory.ownerUser ∨
        credentials.fsUserId = node.ownerUser ∨ capable directory credentials .fowner = false := by
  constructor
  · intro hunmapped
    have hcapable := capable_powerless node credentials hunmapped
    have hchmod : checkChmodPermission node credentials
        = checkChmodPermission node credentials.powerless := by
      unfold checkChmodPermission
      rw [hcapable]
      rfl
    have hsetgid : canPreserveSetgid node credentials
        = canPreserveSetgid node credentials.powerless := by
      unfold canPreserveSetgid
      rw [hcapable]
      rfl
    refine ⟨?_, ?_, ?_⟩
    · intro requested
      unfold checkDac
      rw [hcapable]
      rfl
    · intro request
      unfold planChmod ChmodSetattrPlan.prepare
      dsimp only
      rw [hchmod, hsetgid]
    · intro request
      unfold planChown ChownSetattrPlan.prepare ChownSetattrPlan.finalMode chownHookMode killedMode
        checkChownPermission
      dsimp only
      rw [hchmod, hsetgid, hcapable]
      rfl
  · intro directory
    have hnone : capable directory credentials.powerless .fowner = false := Bool.and_false _
    unfold checkStickyMutation
    rw [hnone]
    -- both run the same tests but for the last
    have huser : credentials.powerless.fsUserId = credentials.fsUserId := rfl
    rw [huser]
    cases capable directory credentials .fowner with
    | false => simp
    | true => grind

/-- A sticky directory, and a file in it whose IDs are not mapped, each of another user. -/
def stickyDirectory : NodeMetadata Nat Nat Unit := ⟨0x3ff, 10, 10, .directory, (), true⟩
def unmappedFile : NodeMetadata Nat Nat Unit := ⟨0x180, 20, 20, .regular, (), false⟩

theorem sticky_over_unmapped :
    let actor : DacCredentials Nat Nat Unit := ⟨30, 30, fun _ => false, fun _ _ => true⟩
    checkStickyMutation actor stickyDirectory unmappedFile = .ok () ∧
      checkStickyMutation actor.powerless stickyDirectory unmappedFile = .error .stickyDenied :=
  ⟨rfl, rfl⟩

/-! ## Chown -/

/-- What a chown leaves of the mode of a file. -/
structure Stripped (old new : BitVec 16) : Prop where
  user : new &&& setUid = 0
  group : new &&& setGid = 0 ∨ new &&& groupExecute = 0
  other : new &&& ~~~(setUid ||| setGid) = old &&& ~~~(setUid ||| setGid)

theorem Stripped.clear (huser : new &&& setUid = 0)
    (hother : new &&& ~~~(setUid ||| setGid) = old &&& ~~~(setUid ||| setGid)) :
    Stripped old (new &&& ~~~setGid) where
  user := by rwa [BitVec.and_assoc, show ~~~setGid &&& setUid = setUid from rfl]
  group := by
    left
    rw [BitVec.and_assoc, show ~~~setGid &&& setGid = 0 from rfl]
    exact BitVec.and_zero
  other := by rwa [BitVec.and_assoc,
    show ~~~setGid &&& ~~~(setUid ||| setGid) = ~~~(setUid ||| setGid) from rfl]

omit [DecidableEq U] in
theorem stripped_killedMode : Stripped node.mode (killedMode node credentials) := by
  have huser : node.mode &&& ~~~setUid &&& setUid = 0 := by
    rw [BitVec.and_assoc, show ~~~setUid &&& setUid = 0 from rfl]
    exact BitVec.and_zero
  have hother : node.mode &&& ~~~setUid &&& ~~~(setUid ||| setGid)
      = node.mode &&& ~~~(setUid ||| setGid) := by
    rw [BitVec.and_assoc,
      show ~~~setUid &&& ~~~(setUid ||| setGid) = ~~~(setUid ||| setGid) from rfl]
  unfold killedMode
  dsimp only
  split
  case isTrue => exact .clear huser hother
  case isFalse hkept => exact ⟨huser, .inr (not_not.mp (not_or.mp hkept).1), hother⟩

/-- The mode to commit; what the final group still takes off the hook's mode is set-group-ID. -/
theorem finalMode_stripped (h : (planChown node credentials request).finalMode group = .ok mode) :
    (node.kind ≠ .directory → Stripped node.mode (mode.getD node.mode)) ∧
    (node.kind = .directory → mode.getD node.mode = node.mode) := by
  have hkilled := stripped_killedMode node credentials
  unfold ChownSetattrPlan.finalMode planChown chownHookMode at h
  by_cases hnone : node.kind = .directory ∨ killedMode node credentials = node.mode
  · rw [if_pos hnone] at h
    obtain rfl : none = mode := Except.ok.inj h
    refine ⟨fun hfile => ?_, fun _ => rfl⟩
    rw [hnone.resolve_left hfile] at hkilled
    exact hkilled
  · rw [if_neg hnone] at h
    obtain ⟨-, -, h⟩ := Lib.bind_eq_ok.mp h
    obtain rfl := Except.ok.inj h
    refine ⟨fun _ => ?_, fun hdirectory => absurd (.inl hdirectory) hnone⟩
    dsimp only [Option.getD_some]
    split
    · exact hkilled
    · exact .clear hkilled.user hkilled.other

theorem checkChownPermission_confined (h : checkChownPermission node credentials request = .ok ())
    (hnamed : request.isFullyOmitted = false) (hnone : capable node credentials .chown = false) :
    credentials.fsUserId = node.ownerUser ∧ request.user.getD node.ownerUser = node.ownerUser ∧
      (request.group.getD node.ownerGroup = node.ownerGroup ∨
        request.group.getD node.ownerGroup = credentials.fsGroupId ∨
        credentials.isInGroup (request.group.getD node.ownerGroup)) := by
  unfold checkChownPermission at h
  rw [hnamed, hnone] at h
  obtain ⟨user, group⟩ := request
  cases user <;> cases group <;> simp_all <;> grind

/-- A chown that succeeds takes the set-ID bits off a file and nothing else off any inode; without
`CAP_CHOWN` it is the owner's, who keeps the inode and gives it a group of their own. -/
theorem chown_confined (request : ChownRequest U G) (prepared : PreparedSetattr U G)
    (h : (planChown node credentials request).prepare = .ok prepared) :
    (node.kind ≠ .directory → Stripped node.mode prepared.committedMode) ∧
    (node.kind = .directory → prepared.committedMode = node.mode) ∧
    (request.isFullyOmitted = false → capable node credentials .chown = false →
      credentials.fsUserId = node.ownerUser ∧ prepared.committedUser = node.ownerUser ∧
      (prepared.committedGroup = node.ownerGroup ∨
        prepared.committedGroup = credentials.fsGroupId ∨
        credentials.isInGroup prepared.committedGroup)) ∧
    (request.isFullyOmitted → prepared.owner = none ∧
      prepared.committedUser = node.ownerUser ∧ prepared.committedGroup = node.ownerGroup) ∧
    prepared.owner.getD (node.ownerUser, node.ownerGroup)
      = (prepared.committedUser, prepared.committedGroup) ∧
    prepared.mode.getD node.mode = prepared.committedMode := by
  obtain ⟨⟨⟩, hpermitted, h⟩ := Lib.bind_eq_ok.mp h
  obtain ⟨mode, hmode, h⟩ := Lib.bind_eq_ok.mp h
  obtain rfl := Except.ok.inj h
  obtain ⟨hfile, hdirectory⟩ := finalMode_stripped node credentials hmode
  have homitted (homit : request.isFullyOmitted) : request = ⟨none, none⟩ := by
    obtain ⟨user, group⟩ := request
    simpa [ChownRequest.isFullyOmitted] using homit
  refine ⟨hfile, hdirectory, checkChownPermission_confined node credentials hpermitted, ?_, ?_, rfl⟩
  · intro homit
    obtain rfl := homitted homit
    exact ⟨rfl, rfl, rfl⟩
  · by_cases homit : request.isFullyOmitted
    · obtain rfl := homitted homit
      rfl
    · show (if request.isFullyOmitted then none else some _).getD _ = _
      rw [if_neg homit]
      rfl

/-- The owner of a set-ID program gives it their own group. -/
theorem chown_program :
    let program : NodeMetadata Nat Nat Unit := ⟨0xded, 10, 20, .regular, (), true⟩
    let owner : DacCredentials Nat Nat Unit := ⟨10, 10, fun _ => false, fun _ _ => false⟩
    (planChown program owner ⟨none, some 10⟩).prepare
        = .ok ⟨some (10, 10), some 0x1ed, 10, 10, 0x1ed⟩ ∧
      Stripped program.mode 0x1ed := by
  intro program owner
  refine ⟨by decide, ?_⟩
  exact (chown_confined program owner ⟨none, some 10⟩
    ⟨some (10, 10), some 0x1ed, 10, 10, 0x1ed⟩ (by decide)).1 (by decide)

end Policy

end LinuxAbi.Vfs
