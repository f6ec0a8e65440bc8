import Zbacs.Agent.OwnerDevice.Theorems
import Zbacs.Agent.Reference

namespace Zbacs.Agent

open Zbacs.Lib Zbacs.Core Zbacs.Proto Zbacs.Agent.Setup

section Reached

variable {L : Libraries}

-- A fresh request from some device for a file with this owner id.
structure AsksFor (L : Libraries) (own : Bytes) (envelope : Proto.Envelope) (request : AccessRequest)
    (now : UInt64) : Prop where
  kind_eq : envelope.kind = .req
  signed : ∃ signed, Signed.fromBytes L envelope.body = .ok signed ∧
    SignedAs L .req L.requestCodec request.ed25519Pub request signed ∧ request.deviceKid = signed.kid ∧
    isFresh signed.ts now = true
  owner : request.owner = own
  requested : request.requested = 1 ∨ request.requested = 2

-- Requests for the file are queued where the watcher reads, and it takes them.
structure Reached (L : Libraries) (w : InboxWatcher) (h : Header) : Prop where
  polled : Zbacs.Relay.InboxQuery.target ⟨some (hexEncode w.owner), none⟩ = some (.owner h.body.own)
  accepted : ∀ envelope request now, AsksFor L h.body.own envelope request now →
    acceptRequest L envelope w.owner now = some request

theorem reached_iff {w : InboxWatcher} {h : Header} (hlen : w.owner.length = 20 ∨ w.owner.length = 32) :
    Reached L w h ↔ h.body.own = w.owner := by
  have htarget : Zbacs.Relay.InboxQuery.target ⟨some (hexEncode w.owner), none⟩ =
      some (.owner w.owner) := by
    have hne : w.owner ≠ [] ∧ w.owner.length ≤ 64 := by
      refine ⟨fun hnil => ?_, by omega⟩
      rw [hnil, List.length_nil] at hlen
      omega
    simp only [Zbacs.Relay.InboxQuery.target, hexDecode_hexEncode, if_pos hne]
  constructor
  · intro hreached
    have hsame := htarget.symm.trans hreached.polled
    exact (Zbacs.Relay.Inbox.owner.inj (Option.some.inj hsame)).symm
  · intro hown
    refine ⟨by rw [hown, htarget], fun envelope request now hasks => ?_⟩
    obtain ⟨signed, hbody, hsigned, hkid, hfresh⟩ := hasks.signed
    exact acceptRequest_eq_some.mpr ⟨hasks.kind_eq, signed, hbody, hsigned, hkid,
      hasks.owner.trans hown, hfresh, hasks.requested⟩

end Reached

namespace OwnerDevice

-- Whatever was locked here, the watcher that runs is asked for it.
def NoneStranded (L : Libraries) (d : OwnerDevice) : Prop :=
  ∀ w, d.watching = some w → ∀ f ∈ d.locked, Reached L w f.header

-- A file that is locked while the watcher runs is locked under the account the profile named when
-- the watcher started; a watcher that starts does so under the account every file so far was
-- locked under.
def Timely {L : Libraries} (x : Taken OwnerDevice (DeviceAction L) (Except DeviceProblem Unit)) : Prop :=
  match x.input with
  | .sealFile keys request run fs => ∀ w r, x.before.watching = some w → x.before.identity = some r →
      (x.before.written keys request run fs).isSome = true → r.profile.account = w.account
  | .ensureWatching keys client => ∀ r, x.before.watching = none → x.before.identity = some r →
      (∃ w, x.before.clientFor keys client = .ok w) →
      ∀ f ∈ x.before.locked, f.account = r.profile.account
  | _ => True

-- One profile for good: what is in memory is what is on disk, and every id is from before or from
-- after its one adoption.
structure Kept (d : OwnerDevice) : Prop where
  identity : ∀ r, d.identity = some r → d.profile = some r.profile
  locked : ∀ f ∈ d.locked, ∃ p, d.profile = some p ∧ NamedBy p f.account f.header.body.own
  watching : ∀ w, d.watching = some w → ∃ p, d.profile = some p ∧ NamedBy p w.account w.owner

section

variable {L : Libraries} {d d' : OwnerDevice} {a : DeviceAction L}

theorem kept_start : Kept start := ⟨by rintro r ⟨⟩, by rintro f ⟨⟩, by rintro w ⟨⟩⟩

theorem Kept.stepped (hkept : Kept d) (h : Stepped d a d') : Kept d' := by
  cases h with
  | quiet => exact hkept
  | setUp hnew =>
      -- nothing was locked or watched before the first setup
      refine ⟨by rintro r ⟨⟩; rfl, fun f hf => ?_, fun w hw => ?_⟩
      · obtain ⟨p, hp, -⟩ := hkept.locked f hf
        rw [hnew] at hp
        cases hp
      · obtain ⟨p, hp, -⟩ := hkept.watching w hw
        rw [hnew] at hp
        cases hp
  | resumed hold => exact ⟨by rintro r ⟨⟩; exact hold, hkept.locked, hkept.watching⟩
  | watches hnone hclient =>
      obtain ⟨r, hr, rfl⟩ := clientFor_eq_ok hclient
      refine ⟨hkept.identity, hkept.locked, ?_⟩
      rintro w ⟨⟩
      exact ⟨r.profile, hkept.identity r hr, namedBy_self r.profile⟩
  | locks hwritten =>
      obtain ⟨r, hr, haccount, hown⟩ := written_eq_some hwritten
      refine ⟨hkept.identity, fun f hf => ?_, hkept.watching⟩
      rcases List.mem_append.mp hf with hbefore | hnow
      · exact hkept.locked f hbefore
      · obtain rfl := List.mem_singleton.mp hnow
        refine ⟨r.profile, hkept.identity r hr, ?_⟩
        rw [haccount, hown]
        exact namedBy_self r.profile
  | @adopts owner _ p pending hold howner =>
      have hadopt : ∀ account own, (∃ q, d.profile = some q ∧ NamedBy q account own) →
          ∃ q, some { p with account := some owner } = some q ∧ NamedBy q account own := by
        rintro account own ⟨q, hq, hnamed⟩
        obtain rfl := Option.some.inj (hold.symm.trans hq)
        exact ⟨_, rfl, hnamed.adopt howner⟩
      refine ⟨fun r hr => ?_, fun f hf => hadopt _ _ (hkept.locked f hf),
        fun w hw => hadopt _ _ (hkept.watching w hw)⟩
      obtain ⟨r₀, hr₀, rfl⟩ := Option.map_eq_some_iff.mp hr
      obtain rfl := Option.some.inj (hold.symm.trans (hkept.identity r₀ hr₀))
      rfl
  | restarts hidentity => exact ⟨hidentity, hkept.locked, by rintro w ⟨⟩⟩

-- A watcher is asked for a file exactly when both are from the same side of the adoption.
theorem Kept.reached_iff (hkept : Kept d) {w : InboxWatcher} (hw : d.watching = some w) {f : Locked}
    (hf : f ∈ d.locked) : Reached L w f.header ↔ f.account = w.account := by
  obtain ⟨p, hp, hwatch⟩ := hkept.watching w hw
  obtain ⟨q, hq, hfile⟩ := hkept.locked f hf
  obtain rfl := Option.some.inj (hp.symm.trans hq)
  rw [Agent.reached_iff hwatch.length, hfile.own_eq_iff hwatch]

theorem Kept.noneStranded_iff (hkept : Kept d) : NoneStranded L d ↔
    ∀ w, d.watching = some w → ∀ f ∈ d.locked, f.account = w.account :=
  forall_congr' fun _ => forall_congr' fun hw => forall_congr' fun _ => forall_congr' fun hf =>
    hkept.reached_iff hw hf

-- A step strands nothing exactly when it is timely.
theorem noneStranded_step (hkept : Kept d) (hnone : NoneStranded L d) (a : DeviceAction L) :
    NoneStranded L (d.step a).2 ↔ Timely (taken step d a) := by
  have hstepped := step_stepped d a
  have hkept' := hkept.stepped hstepped
  rw [hkept.noneStranded_iff] at hnone
  rw [hkept'.noneStranded_iff]
  have hbefore : (taken step d a).before = d := rfl
  have hinput : (taken step d a).input = a := rfl
  unfold Timely
  rw [hinput, hbefore]
  generalize (d.step a).2 = d' at hstepped hkept' ⊢
  cases hstepped with
  | quiet hseal hwatch =>
      refine iff_of_true hnone ?_
      cases a with
      | sealFile keys request run fs =>
          intro w r _ _ hwritten
          rw [hseal keys request run fs rfl] at hwritten
          cases hwritten
      | ensureWatching keys client =>
          rintro r hfree - ⟨w, hclient⟩
          exact absurd hclient (hwatch keys client rfl hfree w)
      | completeSetup | adoptOwner | restart => trivial
  | setUp hnew => exact iff_of_true hnone trivial
  | resumed hold => exact iff_of_true hnone trivial
  | watches hfree hclient =>
      obtain ⟨r, hr, rfl⟩ := clientFor_eq_ok hclient
      constructor
      · intro h r' _ hr' _ f hf
        obtain rfl := Option.some.inj (hr.symm.trans hr')
        exact h _ rfl f hf
      · rintro h w ⟨⟩ f hf
        exact h r hfree hr ⟨_, hclient⟩ f hf
  | locks hwritten =>
      obtain ⟨r, hr, haccount, -⟩ := written_eq_some hwritten
      constructor
      · intro h w r' hw hr' _
        obtain rfl := Option.some.inj (hr.symm.trans hr')
        rw [← haccount]
        exact h w hw _ (List.mem_append_right _ (List.mem_singleton_self _))
      · intro h w hw f hf
        rcases List.mem_append.mp hf with hold | hnew
        · exact hnone w hw f hold
        · obtain rfl := List.mem_singleton.mp hnew
          rw [haccount]
          exact h w r hw hr (by rw [hwritten]; rfl)
  | adopts hold howner => exact iff_of_true hnone trivial
  | restarts hidentity => exact iff_of_true (by rintro w ⟨⟩) trivial

-- A run strands nothing exactly when its steps are timely.
theorem noneStranded_run (hkept : Kept d) (hnone : NoneStranded L d) (actions : List (DeviceAction L)) :
    (∀ x ∈ trace step actions d, NoneStranded L x.after) ↔ ∀ x ∈ trace step actions d, Timely x := by
  induction actions generalizing d with
  | nil => exact iff_of_true (by simp [trace]) (by simp [trace])
  | cons a actions ih =>
      have hstep := noneStranded_step hkept hnone a
      have hkept' : Kept (d.step a).2 := hkept.stepped (step_stepped d a)
      rw [trace, List.forall_mem_cons, List.forall_mem_cons]
      constructor
      · rintro ⟨hnow, hrest⟩
        exact ⟨hstep.mp hnow, (ih hkept' hnow).mp hrest⟩
      · rintro ⟨hnow, hrest⟩
        have hnone' := hstep.mpr hnow
        exact ⟨hnone', (ih hkept' hnone').mpr hrest⟩

end

-- From a machine that was never set up, no locked file is ever out of the watcher's reach exactly
-- when every step of the run is timely.
theorem none_stranded_iff (L : Libraries) (actions : List (DeviceAction L)) :
    (∀ x ∈ trace step actions start, NoneStranded L x.after) ↔
      ∀ x ∈ trace step actions start, Timely x :=
  noneStranded_run kept_start (by rintro w ⟨⟩) actions

namespace Reference

open Zbacs.Agent.Reference

-- A machine on which everything works.
def working : SetupEnv :=
  { capabilities := ⟨true, true, true⟩
    reads := true
    writes := true
    keys := .ok ⟨.replicate 32 1, .replicate 32 2, .replicate 32 3, .replicate 32 4⟩
    create := fun style _ => .ok ⟨⟨style.signerKind, .replicate 32 5, none⟩, none, true⟩
    reopen := fun p => .ok ⟨p.signer, p.keyId, p.publicKey⟩
    now := 10 }

def report : SealRequest := ⟨["home", "report.docx"], .readOnly, .hour, .once⟩

def desktop : Fs := (Fs.empty.insert ["home"] .dir).insert ["home", "report.docx"] (.file [1, 2, 3] false)

def sealing : SealRun := ⟨true, Core.Reference.draws, .calm⟩

def smartAccount : FixedBytes 20 := .replicate 20 0xaa

-- A file is locked; then the owner's account becomes known; the Agent is started again.
def adoptsLate : List (DeviceAction libraries) :=
  [.completeSetup .thisDevice working, .sealFile (.ok Core.Reference.owner) report sealing desktop,
    .adoptOwner smartAccount working, .restart working]

theorem report_sealable (p : DeviceProfile) :
    (sealOpts p report).Sealable libraries.toPrimitives :=
  sealOpts_sealable p (show (utf8 "report.docx").length ≤ maxNameLen by decide)

-- Whoever owns the machine, the report can be locked.
theorem report_locked (p : DeviceProfile) : ∃ h, (writeLocked libraries.toPrimitives Core.Reference.owner p
    report sealing desktop).1 = .ok h := by
  obtain ⟨h, out, headerBytes, frames, fs', hseal, -⟩ := sealSignedToPath_ok libraries_lawful
    (report_sealable p) Core.Reference.owner.sealing.validKey Core.Reference.owner.signing
    Core.Reference.draws SealEnv.calm_quiet (show desktop.readFile report.path = some [1, 2, 3] from rfl)
    (by decide) (show desktop.lookup (withExtension (sealedPath report.path) "zbacs.tmp") ≠ some .dir by
      decide) (show desktop.lookup (sealedPath report.path) ≠ some .dir by decide)
  have hfree : (examine sealing.readable report.path desktop).ok = true := by decide
  have hwrite : sealToPath libraries.toPrimitives report.path (sealedPath report.path)
      Core.Reference.owner (sealOpts p report) sealing.rng sealing.env desktop = (.ok h, fs') := hseal
  refine ⟨h, ?_⟩
  unfold writeLocked
  simp only [hfree, hwrite, Bool.not_true, Bool.false_eq_true, if_false]

theorem stranded_by_adoption : ∃ x ∈ trace step (adoptsLate ++ [.ensureWatching (.ok ()) (.ok ())]) start,
    ¬NoneStranded libraries x.after := by
  let d := (start.step (L := libraries) (.completeSetup .thisDevice working)).2
  let p := newProfile working .thisDevice ⟨.replicate 32 1, .replicate 32 2, .replicate 32 3,
    .replicate 32 4⟩ ⟨⟨.deviceKey, .replicate 32 5, none⟩, none, true⟩
  obtain ⟨h, hlocked⟩ := report_locked p
  have hidentity : d.identity = some ⟨p, ⟨.deviceKey, .replicate 32 5, none⟩, pendingFor working p⟩ := rfl
  have hwritten := @written_ok libraries d _ _ _ _ _ _ hidentity rfl hlocked
  have hown : h.body.own = p.ownerSigningPub.bytes := own_writeLocked hlocked
  refine ⟨_, taken_mem_trace adoptsLate (.ensureWatching (.ok ()) (.ok ())) [] start, fun hnone => ?_⟩
  have hmem : (⟨h, none⟩ : Locked) ∈ ([] : List Locked) ++
      (d.written (L := libraries) (.ok Core.Reference.owner) report sealing desktop).toList := by
    rw [hwritten]
    exact List.mem_singleton_self _
  have hreached := hnone ⟨smartAccount.bytes, some smartAccount⟩ rfl ⟨h, none⟩ hmem
  rw [reached_iff (.inl smartAccount.length_bytes), hown] at hreached
  exact absurd (congrArg List.length hreached) (by decide)

end Reference

end OwnerDevice

end Zbacs.Agent
