import Zbacs.Core.Backup
import Zbacs.Core.Container.Integrity

namespace Zbacs.Core

open Zbacs.Lib

section Split

variable {bytes headerCbor ct : Bytes} {stop : Nat}

theorem slice_eq_ok {start stop : Nat} (hstart : start ≤ stop) (hstop : stop ≤ bytes.length) :
    Halt.slice start stop bytes = .ok ((bytes.take stop).drop start) := if_pos ⟨hstart, hstop⟩

theorem addUsize_eq_ok {a b : Nat} (h : a + b < 2 ^ 64) : Halt.addUsize a b = .ok (a + b) := if_pos h

-- Nothing is read out of range, whatever the length field says.
theorem splitBackup_eq : splitBackup bytes =
    if bytes.length < 12 ∨ bytes.take 8 ≠ backupMagic then .error (.error .badMagic)
    else if leNat ((bytes.take 12).drop 8) = 0 ∨
        bytes.length < 12 + leNat ((bytes.take 12).drop 8) + 16 then .error (.error .truncated)
    else .ok ((bytes.take (12 + leNat ((bytes.take 12).drop 8))).drop 12,
      12 + leNat ((bytes.take 12).drop 8)) := by
  unfold splitBackup
  by_cases hlen : bytes.length < 12
  · rw [if_pos hlen, if_pos (.inl hlen)]
  rw [if_neg hlen, slice_eq_ok (Nat.zero_le 8) (by omega), List.drop_zero, ok_bind]
  by_cases hmagic : bytes.take 8 = backupMagic
  case neg => rw [if_pos hmagic, if_pos (.inr hmagic)]
  have hword : ((bytes.take 12).drop 8).length = 4 := by
    rw [List.length_drop, List.length_take]
    omega
  have hunwrap : Halt.unwrap (FixedBytes.ofBytes? 4 ((bytes.take 12).drop 8)) =
      .ok ⟨(bytes.take 12).drop 8, hword⟩ := by
    rw [FixedBytes.ofBytes?, dif_pos hword]
    rfl
  have hbound := leNat_lt ((bytes.take 12).drop 8)
  rw [hword] at hbound
  rw [if_neg (not_not.mpr hmagic), if_neg (not_or.mpr ⟨hlen, not_not.mpr hmagic⟩),
    slice_eq_ok (by decide) (Nat.not_lt.mp hlen), ok_bind, hunwrap, ok_bind]
  dsimp only
  generalize leNat ((bytes.take 12).drop 8) = n at hbound ⊢
  by_cases hzero : n = 0
  · rw [if_pos hzero, if_pos (.inl hzero)]
  rw [if_neg hzero, addUsize_eq_ok (by omega), ok_bind, addUsize_eq_ok (by omega), ok_bind]
  by_cases hshort : bytes.length < 12 + n + 16
  · rw [if_pos hshort, if_pos (.inr hshort)]
  rw [if_neg hshort, if_neg (not_or.mpr ⟨hzero, hshort⟩), slice_eq_ok (by omega) (by omega), ok_bind]

theorem length_backupFile : (backupFile headerCbor ct).length = 12 + headerCbor.length + ct.length := by
  simp only [backupFile, backupMagic, List.length_append, length_leBytes, List.length_cons,
    List.length_nil]

theorem splitBackup_file (hpos : 0 < headerCbor.length) (hlen : headerCbor.length < 2 ^ 32)
    (hct : 16 ≤ ct.length) :
    splitBackup (backupFile headerCbor ct) = .ok (headerCbor, 12 + headerCbor.length) := by
  have hlength := @length_backupFile headerCbor ct
  have hsplit : backupFile headerCbor ct =
      backupMagic ++ (leBytes 4 headerCbor.length ++ (headerCbor ++ ct)) := by
    rw [backupFile, Nat.mod_eq_of_lt hlen, List.append_assoc, List.append_assoc]
  have hmagic : (backupFile headerCbor ct).take 8 = backupMagic := by
    rw [hsplit]
    exact List.take_left' rfl
  have hafter : (backupFile headerCbor ct).drop 8 =
      leBytes 4 headerCbor.length ++ (headerCbor ++ ct) := by
    rw [hsplit]
    exact List.drop_left' rfl
  have hword : ((backupFile headerCbor ct).take 12).drop 8 = leBytes 4 headerCbor.length := by
    rw [List.drop_take, hafter, List.take_left' (length_leBytes ..)]
  have hheader : ((backupFile headerCbor ct).take (12 + headerCbor.length)).drop 12 = headerCbor := by
    have hdrop : (backupFile headerCbor ct).drop 12 = headerCbor ++ ct := by
      rw [← List.drop_drop (i := 4) (j := 8), hafter, List.drop_left' (length_leBytes ..)]
    rw [List.drop_take, hdrop, List.take_left' (by omega)]
  rw [splitBackup_eq, hword, leNat_leBytes 4 headerCbor.length hlen,
    if_neg (not_or.mpr ⟨by omega, not_not.mpr hmagic⟩), if_neg (by omega), hheader]

theorem splitBackup_eq_ok (h : splitBackup bytes = .ok (headerCbor, stop)) :
    bytes = backupFile headerCbor (bytes.drop stop) ∧ stop = 12 + headerCbor.length ∧
      stop ≤ bytes.length := by
  rw [splitBackup_eq, ite_error_eq_ok, ite_error_eq_ok, not_or, not_not, not_or] at h
  obtain ⟨⟨hlen, hmagic⟩, ⟨-, hshort⟩, h⟩ := h
  have hword : ((bytes.take 12).drop 8).length = 4 := by
    rw [List.length_drop, List.length_take]
    omega
  have hbound := leNat_lt ((bytes.take 12).drop 8)
  have hread := leBytes_leNat ((bytes.take 12).drop 8)
  rw [hword] at hbound hread
  generalize leNat ((bytes.take 12).drop 8) = n at h hbound hread hshort
  obtain ⟨rfl, rfl⟩ := Prod.mk.inj (Except.ok.inj h)
  have hheader : ((bytes.take (12 + n)).drop 12).length = n := by
    rw [List.length_drop, List.length_take]
    omega
  refine ⟨?_, by rw [hheader], by omega⟩
  have hlow : backupMagic ++ (bytes.take 12).drop 8 = bytes.take 12 := by
    have htake := List.take_append_drop 8 (bytes.take 12)
    rwa [List.take_take, Nat.min_eq_left (by decide), hmagic] at htake
  have hmid : bytes.take 12 ++ (bytes.take (12 + n)).drop 12 = bytes.take (12 + n) := by
    have htake := List.take_append_drop 12 (bytes.take (12 + n))
    rwa [List.take_take, Nat.min_eq_left (by omega)] at htake
  rw [backupFile, hheader, Nat.mod_eq_of_lt (show n < 2 ^ 32 by omega), hread, hlow, hmid,
    List.take_append_drop]

end Split

section Halts

variable {α β : Type} {r : Result α} {a : α}

theorem ofResult_eq_ok : Halt.ofResult r = .ok a ↔ r = .ok a := by
  cases r <;> simp [Halt.ofResult, Except.mapError]

theorem mapError_eq_ok {ε ε' : Type} {f : ε → ε'} {x : Except ε α} :
    x.mapError f = .ok a ↔ x = .ok a := by
  cases x <;> simp [Except.mapError]

theorem ofResult_ne_panic : Halt.ofResult r ≠ .error .panic := by
  cases r <;> simp [Halt.ofResult, Except.mapError]

theorem bind_ne_panic {x : Except Halt α} {f : α → Except Halt β} (hx : x ≠ .error .panic)
    (hf : ∀ a, x = .ok a → f a ≠ .error .panic) : (x >>= f) ≠ .error .panic := by
  cases x with
  | error halt => exact fun h => hx (congrArg Except.error (Except.error.inj h))
  | ok a => exact hf a rfl

end Halts

section Restore

variable {P : Primitives} {L : BackupLibraries} {bytes headerCbor : Bytes} {stop : Nat}
  {header : BackupHeader} {code : RecoveryCode}

theorem check_eq_ok (h : header.check = .ok ()) : header.params.memKib ≤ 1024 * 1024 ∧
    header.params.passes ≤ 10 ∧ header.params.lanes ≤ 4 ∧ header.params.lanes ≠ 0 := by
  rw [BackupHeader.check, ite_error_eq_ok, ite_error_eq_ok, not_or, not_or, not_or, UInt32.not_lt,
    UInt32.not_lt, UInt32.not_lt] at h
  exact h.2.1

theorem readBackupHeader_eq_ok :
    readBackupHeader L bytes = .ok (header, headerCbor, stop) ↔
      splitBackup bytes = .ok (headerCbor, stop) ∧ L.headerCodec.decode headerCbor = .ok header ∧
        header.check = .ok () := by
  unfold readBackupHeader
  simp only [bind_eq_ok, ofResult_eq_ok, mapError_eq_ok]
  constructor
  · rintro ⟨⟨headerCbor', stop'⟩, hsplit, header', hdecode, ⟨⟩, hcheck, hparts⟩
    obtain ⟨rfl, hrest⟩ := Prod.mk.inj (Except.ok.inj hparts)
    obtain ⟨rfl, rfl⟩ := Prod.mk.inj hrest
    exact ⟨hsplit, hdecode, hcheck⟩
  · rintro ⟨hsplit, hdecode, hcheck⟩
    exact ⟨_, hsplit, _, hdecode, (), hcheck, rfl⟩

theorem stop_le_of_read (h : readBackupHeader L bytes = .ok (header, headerCbor, stop)) :
    stop ≤ bytes.length := (splitBackup_eq_ok (readBackupHeader_eq_ok.mp h).1).2.2

theorem readBackupHeader_ne_panic : readBackupHeader L bytes ≠ .error .panic := by
  unfold readBackupHeader
  refine bind_ne_panic ?_ fun split _ => bind_ne_panic ofResult_ne_panic fun header _ =>
    bind_ne_panic ofResult_ne_panic fun _ _ => by simp
  rw [splitBackup_eq]
  split_ifs <;> simp

theorem openBackup_ne_panic (hstop : stop ≤ bytes.length) :
    openBackup L P header headerCbor stop bytes code ≠ .error .panic := by
  unfold openBackup
  refine bind_ne_panic ofResult_ne_panic fun key _ => ?_
  rw [slice_eq_ok hstop (Nat.le_refl _), ok_bind]
  split
  · simp
  · exact bind_ne_panic ofResult_ne_panic fun secrets _ => ofResult_ne_panic

-- No byte string makes it panic, and none gets a key derived at more than the bounded cost.
theorem restoreBackup_total (bytes : Bytes) (code : RecoveryCode) :
    (restoreBackup L P bytes code).result ≠ .error .panic ∧
      ∀ params ∈ (restoreBackup L P bytes code).stretched, params.memKib ≤ 1024 * 1024 ∧
        params.passes ≤ 10 ∧ params.lanes ≤ 4 ∧ params.lanes ≠ 0 := by
  have hread := @readBackupHeader_ne_panic L bytes
  unfold restoreBackup
  rcases hparts : readBackupHeader L bytes with halt | ⟨header, headerCbor, stop⟩
  · rw [hparts] at hread
    exact ⟨fun h => hread (congrArg Except.error (Except.error.inj h)),
      fun params hparams => absurd hparams List.not_mem_nil⟩
  · obtain ⟨-, -, hcheck⟩ := readBackupHeader_eq_ok.mp hparts
    refine ⟨openBackup_ne_panic (stop_le_of_read hparts), fun params hparams => ?_⟩
    dsimp only at hparams
    split_ifs at hparams
    · rw [List.mem_singleton.mp hparams]
      exact check_eq_ok hcheck
    · exact absurd hparams List.not_mem_nil

-- What a restore says of a file that is taken apart.
theorem restoreBackup_eq (h : readBackupHeader L bytes = .ok (header, headerCbor, stop)) :
    (restoreBackup L P bytes code).result = openBackup L P header headerCbor stop bytes code := by
  rw [restoreBackup, h]

theorem openBackup_refused {key : FixedBytes 32} (hstop : stop ≤ bytes.length)
    (hkey : deriveKey L code header = .ok key)
    (hopen : P.aead.decrypt key header.nonce headerCbor (bytes.drop stop) = none) :
    openBackup L P header headerCbor stop bytes code = .error (.error .backupAuth) := by
  rw [openBackup, ofResult_eq_ok.mpr hkey, ok_bind, slice_eq_ok hstop (Nat.le_refl _), ok_bind,
    List.take_length, hopen]

theorem openBackup_eq_ok {r : OwnerKeys P × Bytes} (hstop : stop ≤ bytes.length) :
    openBackup L P header headerCbor stop bytes code = .ok r ↔
      ∃ key plaintext secrets, deriveKey L code header = .ok key ∧
        P.aead.decrypt key header.nonce headerCbor (bytes.drop stop) = some plaintext ∧
        L.secretsCodec.decode plaintext = .ok secrets ∧ restoreSecrets secrets = .ok r := by
  unfold openBackup
  rw [slice_eq_ok hstop (Nat.le_refl _), List.take_length]
  simp only [bind_eq_ok, ofResult_eq_ok]
  constructor
  · rintro ⟨key, hkey, ct, hct, h⟩
    obtain rfl := Except.ok.inj hct
    split at h
    · cases h
    · rename_i plaintext hopen
      obtain ⟨secrets, hsecrets, hr⟩ := bind_eq_ok.mp h
      exact ⟨key, plaintext, secrets, hkey, hopen, mapError_eq_ok.mp (ofResult_eq_ok.mp hsecrets),
        ofResult_eq_ok.mp hr⟩
  · rintro ⟨key, plaintext, secrets, hkey, hopen, hsecrets, hr⟩
    refine ⟨key, hkey, _, rfl, ?_⟩
    rw [hopen]
    exact bind_eq_ok.mpr ⟨secrets, ofResult_eq_ok.mpr (mapError_eq_ok.mpr hsecrets),
      ofResult_eq_ok.mpr hr⟩

theorem restoreSecrets_secretsOf (owner : OwnerKeys P) (extra : Bytes) :
    restoreSecrets (secretsOf owner extra) = .ok (owner, extra) := by
  obtain ⟨⟨sk, pk, hpk⟩, signing⟩ := owner
  unfold restoreSecrets secretsOf
  rw [FixedBytes.ofBytes?_bytes]
  subst hpk
  rfl

end Restore

-- An export that succeeded.
structure Export (P : Primitives) (L : BackupLibraries) where
  owner : OwnerKeys P
  extra : Bytes
  code : RecoveryCode
  salt : FixedBytes 16
  nonce : FixedBytes 24
  file : Bytes
  exported : exportBackupWithCode L owner extra code salt nonce = .ok file

namespace Export

variable {P : Primitives} {L : BackupLibraries} (e : Export P L)

def header : BackupHeader := backupHeader e.salt e.nonce

def secrets : Secrets := secretsOf e.owner e.extra

-- How the file came about.
structure Writes (key : FixedBytes 32) (headerCbor plaintext ct : Bytes) : Prop where
  header : L.headerCodec.encode e.header = .ok headerCbor
  secrets : L.secretsCodec.encode e.secrets = .ok plaintext
  derived : deriveKey L e.code e.header = .ok key
  sealed : P.aead.encrypt key e.nonce headerCbor plaintext = some ct

theorem writes : ∃ key headerCbor plaintext ct, e.Writes key headerCbor plaintext ct ∧
    e.file = backupFile headerCbor ct := by
  have h := e.exported
  unfold exportBackupWithCode at h
  simp only [bind_eq_ok, mapError_eq_ok] at h
  obtain ⟨headerCbor, hheader, plaintext, hsecrets, key, hkey, h⟩ := h
  split at h
  · cases h
  · rename_i ct hct
    exact ⟨key, headerCbor, plaintext, ct, ⟨hheader, hsecrets, hkey, hct⟩,
      (Except.ok.inj h).symm⟩

end Export

section Integrity

variable {P : Primitives} {L : BackupLibraries}

-- The documented behaviour of XChaCha20-Poly1305, of the CBOR codecs and of Argon2id: with
-- parameters it takes, a code and a salt of this length it does not fail.
structure BackupLibraries.Lawful (P : Primitives) (L : BackupLibraries) : Prop where
  tag : ∀ {k n aad msg ct}, P.aead.encrypt k n aad msg = some ct → ct.length = msg.length + tagLen
  headerCodec : L.headerCodec.RoundTrips
  headerSize : ∀ {h b}, L.headerCodec.encode h = .ok b → 0 < b.length ∧ b.length < 2 ^ 32
  secretsCodec : L.secretsCodec.RoundTrips
  stretches : ∀ {params} (code : RecoveryCode) (salt : FixedBytes 16), L.validParams params = true →
    ∃ key, L.argon2id params code.kdfInput (backupKdfDomain ++ salt.bytes) = some key

-- What the exports sealed under a key.
def exportLog (world : Set (Export P L)) (key : FixedBytes 32) :
    Set (FixedBytes 24 × Bytes × Bytes × Bytes) :=
  {(n, aad, ct, msg) | ∃ e ∈ world, e.nonce = n ∧ e.Writes key aad msg ct}

-- The key of an export comes from its code alone, whatever the parameters and the salt.
def KeysApart (world : Set (Export P L)) : Prop :=
  ∀ e ∈ world, ∀ key, deriveKey L e.code e.header = .ok key →
    ∀ code header, deriveKey L code header = .ok key → code = e.code

-- No two exports drew the same salt together with the same nonce.
def FreshExports (world : Set (Export P L)) : Prop :=
  ∀ e ∈ world, ∀ t ∈ world, e.salt = t.salt → e.nonce = t.nonce → e = t

variable {world : Set (Export P L)} {e : Export P L} {bytes : Bytes} {code : RecoveryCode}

theorem check_backupHeader (salt : FixedBytes 16) (nonce : FixedBytes 24) :
    (backupHeader salt nonce).check = .ok () := by
  have hcheck : ¬(argonParams.memKib > 1024 * 1024 ∨ argonParams.passes > 10 ∨
      argonParams.lanes > 4 ∨ argonParams.lanes = 0) := by decide
  unfold BackupHeader.check backupHeader
  rw [if_neg (not_not.mpr rfl), if_neg hcheck]

-- A file that was exported is taken apart into what it was made of.
theorem Export.Writes.read (hL : L.Lawful P) {key : FixedBytes 32}
    {headerCbor plaintext ct : Bytes} (h : e.Writes key headerCbor plaintext ct) :
    readBackupHeader L (backupFile headerCbor ct) =
      .ok (e.header, headerCbor, 12 + headerCbor.length) := by
  obtain ⟨hpos, hlen⟩ := hL.headerSize h.header
  have htag := hL.tag h.sealed
  have htagLen : tagLen = 16 := rfl
  exact readBackupHeader_eq_ok.mpr ⟨splitBackup_file hpos hlen (by omega),
    hL.headerCodec h.header, check_backupHeader e.salt e.nonce⟩

theorem drop_backupFile (headerCbor ct : Bytes) :
    (backupFile headerCbor ct).drop (12 + headerCbor.length) = ct := by
  refine List.drop_left' ?_
  simp only [backupMagic, List.length_append, length_leBytes, List.length_cons, List.length_nil]

-- Where any file opens, it was exported under this code.
theorem exported_of_opens (hkeys : KeysApart world)
    (hideal : ∀ key, P.aead.Ideal key (exportLog world key)) {header : BackupHeader}
    {headerCbor ct plaintext : Bytes} {key : FixedBytes 32}
    (hkey : deriveKey L code header = .ok key)
    (hopen : P.aead.decrypt key header.nonce headerCbor ct = some plaintext) :
    ∃ t ∈ world, t.file = backupFile headerCbor ct ∧ t.code = code ∧
      t.Writes key headerCbor plaintext ct := by
  obtain ⟨t, ht, -, hwrites⟩ := (hideal key _ _ _ _).mp hopen
  obtain ⟨key', headerCbor', plaintext', ct', hwrites', hfile⟩ := t.writes
  refine ⟨t, ht, ?_, (hkeys t ht key hwrites.derived code header hkey).symm, hwrites⟩
  obtain rfl := Except.ok.inj (hwrites.header.symm.trans hwrites'.header)
  obtain rfl := Except.ok.inj (hwrites.secrets.symm.trans hwrites'.secrets)
  obtain rfl := Except.ok.inj (hwrites.derived.symm.trans hwrites'.derived)
  obtain rfl := Option.some.inj (hwrites.sealed.symm.trans hwrites'.sealed)
  exact hfile

-- The file of an export restores its owner with its code.
theorem restore_export (hL : L.Lawful P) (hideal : ∀ key, P.aead.Ideal key (exportLog world key))
    (he : e ∈ world) : (restoreBackup L P e.file e.code).result = .ok (e.owner, e.extra) := by
  obtain ⟨key, headerCbor, plaintext, ct, hwrites, hfile⟩ := e.writes
  have hopen : P.aead.decrypt key e.header.nonce headerCbor ct = some plaintext :=
    (hideal key _ _ _ _).mpr ⟨e, he, rfl, hwrites⟩
  have hread := hwrites.read hL
  rw [hfile, restoreBackup_eq hread, openBackup_eq_ok (stop_le_of_read hread), drop_backupFile]
  exact ⟨key, plaintext, _, hwrites.derived, hopen, hL.secretsCodec hwrites.secrets,
    restoreSecrets_secretsOf e.owner e.extra⟩

-- What stretches one code stretches every code.
theorem derives_of_derives (hL : L.Lawful P) {header : BackupHeader} {key : FixedBytes 32}
    {known : RecoveryCode} (h : deriveKey L known header = .ok key) (code : RecoveryCode) :
    ∃ key', deriveKey L code header = .ok key' := by
  unfold deriveKey at h ⊢
  rw [ite_error_eq_ok, Bool.not_eq_true', Bool.not_eq_false] at h
  obtain ⟨key', hkey'⟩ := hL.stretches code header.salt h.1
  rw [h.1, hkey']
  exact ⟨key', rfl⟩

-- With another code it does not.
theorem restore_other (hL : L.Lawful P) (hkeys : KeysApart world) (hfresh : FreshExports world)
    (hideal : ∀ key, P.aead.Ideal key (exportLog world key)) (he : e ∈ world)
    (hcode : code ≠ e.code) :
    (restoreBackup L P e.file code).result = .error (.error .backupAuth) := by
  obtain ⟨key, headerCbor, plaintext, ct, hwrites, hfile⟩ := e.writes
  have hread := hwrites.read hL
  obtain ⟨key', hkey'⟩ := derives_of_derives hL hwrites.derived code
  rw [hfile, restoreBackup_eq hread]
  refine openBackup_refused (stop_le_of_read hread) hkey' ?_
  rw [drop_backupFile]
  cases hopen : P.aead.decrypt key' e.header.nonce headerCbor ct with
  | none => rfl
  | some plaintext' =>
      obtain ⟨t, ht, -, htcode, htwrites⟩ := exported_of_opens hkeys hideal hkey' hopen
      have hheader := Except.ok.inj
        ((hL.headerCodec hwrites.header).symm.trans (hL.headerCodec htwrites.header))
      have hsame : e = t := hfresh e he t ht (congrArg BackupHeader.salt hheader)
        (congrArg BackupHeader.nonce hheader)
      exact absurd (hsame ▸ htcode).symm hcode

-- What restores was exported.
theorem exported_of_restore (hkeys : KeysApart world)
    (hideal : ∀ key, P.aead.Ideal key (exportLog world key)) {r : OwnerKeys P × Bytes}
    (h : (restoreBackup L P bytes code).result = .ok r) : ∃ t ∈ world, t.file = bytes := by
  rcases hread : readBackupHeader L bytes with halt | ⟨header, headerCbor, stop⟩
  · rw [restoreBackup, hread] at h
    cases h
  · obtain ⟨hsplit, -, -⟩ := readBackupHeader_eq_ok.mp hread
    obtain ⟨hfile, -, hstop⟩ := splitBackup_eq_ok hsplit
    rw [restoreBackup_eq hread, openBackup_eq_ok hstop] at h
    obtain ⟨key, plaintext, secrets, hkey, hopen, -, -⟩ := h
    obtain ⟨t, ht, htfile, -, -⟩ := exported_of_opens hkeys hideal hkey hopen
    exact ⟨t, ht, htfile.trans hfile.symm⟩

end Integrity

namespace Reference

open Cbor

-- The CBOR of the two parts of a backup.

def backupHeaderWire : Wire BackupHeader :=
  ((entry "version" u8Wire).pair <| (entry "mem_kib" u32Wire).pair <|
    (entry "passes" u32Wire).pair <| (entry "lanes" u32Wire).pair <|
    (entry "salt" (.fixed 16)).pair (entry "nonce" (.fixed 24)) : Wire _).around [0xa6] []
  |>.iso (fun (version, memKib, passes, lanes, salt, nonce) =>
      ⟨version, ⟨memKib, passes, lanes⟩, salt, nonce⟩)
    (fun h => (h.version, h.params.memKib, h.params.passes, h.params.lanes, h.salt, h.nonce))
    fun _ => rfl

def secretsWire : Wire Secrets :=
  ((entry "sealing_sk" .bytes).pair <| (entry "signing_sk" (.fixed 32)).pair
    (entry "extra" .bytes) : Wire _).around [0xa3] []
  |>.iso (fun (sealingSk, signingSk, extra) => ⟨sealingSk, signingSk, extra⟩)
    (fun s => (s.sealingSk, s.signingSk, s.extra)) fun _ => rfl

theorem backupHeaderWire_size (h : BackupHeader) : backupHeaderWire.size h ≤ 200 := by
  have hsize : ∀ {α : Type} (key : String), (utf8 key).length ≤ 7 → ∀ (w : Wire α) a,
      (entry key w).size a ≤ 8 + w.size a := by
    intro α key hkey w a
    have := Wire.size_field (utf8 key) (by omega) w a
    rw [entry]
    omega
  have hversion := hsize "version" (by decide) u8Wire h.version
  have hmem := hsize "mem_kib" (by decide) u32Wire h.params.memKib
  have hpasses := hsize "passes" (by decide) u32Wire h.params.passes
  have hlanes := hsize "lanes" (by decide) u32Wire h.params.lanes
  have hsalt := hsize "salt" (by decide) (.fixed 16) h.salt
  have hnonce := hsize "nonce" (by decide) (.fixed 24) h.nonce
  simp only [backupHeaderWire, u8Wire, u32Wire, Wire.size_iso, Wire.size_refine, Wire.size_around,
    Wire.size_pair, Wire.size_uint, Wire.size_fixed, List.length_cons, List.length_nil] at *
  omega

-- The password itself, filled up with zeros.
def padded (password : Bytes) : FixedBytes 32 := ⟨(password ++ .replicate 32 0).take 32, by simp⟩

def backupLibraries : BackupLibraries where
  validParams p := 8 * p.lanes ≤ p.memKib && 1 ≤ p.passes && 1 ≤ p.lanes
  argon2id _ password _ := some (padded password)
  headerCodec := backupHeaderWire.codec
  secretsCodec := secretsWire.codec

def code : RecoveryCode := .generate (.replicate 25 3)

-- The key, the nonce, the associated data and the message of one export.
def backupKey : FixedBytes 32 := padded code.kdfInput

def sealedBackup : FixedBytes 24 × Bytes × Bytes :=
  (.replicate 24 8, backupHeaderWire.put (backupHeader (.replicate 16 7) (.replicate 24 8)),
    secretsWire.put (secretsOf owner [1, 2, 3]))

def backupPrimitives : Primitives := primitives.withDecrypt fun k n aad ct =>
  if k = backupKey then lookup [sealedBackup] k n aad ct else none

def backupOwner : OwnerKeys backupPrimitives :=
  ⟨.fromSecret (.replicate 32 0x11), ⟨.replicate 32 0x12⟩⟩

theorem backup_exported : ∃ file, exportBackupWithCode backupLibraries backupOwner [1, 2, 3] code
    (.replicate 16 7) (.replicate 24 8) = .ok file := by
  have hexported : (exportBackupWithCode backupLibraries backupOwner [1, 2, 3] code
      (.replicate 16 7) (.replicate 24 8)).toOption.isSome = true := by decide +kernel
  obtain ⟨file, hfile⟩ := Option.isSome_iff_exists.mp hexported
  exact ⟨file, toOption_eq_some.mp hfile⟩

theorem backupLibraries_lawful : backupLibraries.Lawful backupPrimitives where
  tag := aead_correct.length_ct
  headerCodec := backupHeaderWire.codec_roundTrips
  headerSize {h b} he := by
    have hsize := backupHeaderWire_size h
    have hput := backupHeaderWire.encode_put (a := h) (by omega)
    obtain rfl := Except.ok.inj (hput.symm.trans he)
    have hlength := backupHeaderWire.length_put h
    exact ⟨Nat.succ_pos _, by omega⟩
  secretsCodec := secretsWire.codec_roundTrips
  stretches _ _ _ := ⟨_, rfl⟩

theorem padded_inj {code code' : RecoveryCode} (h : padded code.kdfInput = padded code'.kdfInput) :
    code = code' := by
  have hbytes := congrArg (fun key : FixedBytes 32 => key.bytes.take 25) h
  simp only [padded, List.take_take] at hbytes
  have hlength : min 25 32 = groups * perGroup := rfl
  rw [hlength, List.take_left' code.length_kdfInput, List.take_left' code'.length_kdfInput] at hbytes
  exact RecoveryCode.kdfInput_inj hbytes

theorem deriveKey_eq_ok {code : RecoveryCode} {header : BackupHeader} {key : FixedBytes 32}
    (h : deriveKey backupLibraries code header = .ok key) : key = padded code.kdfInput := by
  unfold deriveKey at h
  rw [ite_error_eq_ok] at h
  exact (Except.ok.inj h.2).symm

section Exported

variable {e : Export backupPrimitives backupLibraries}

theorem backup_keysApart : KeysApart {e} := by
  rintro t rfl key hkey code' header hkey'
  exact padded_inj ((deriveKey_eq_ok hkey').symm.trans (deriveKey_eq_ok hkey))

theorem backup_fresh : FreshExports {e} := fun _ ha _ hb _ _ => ha.trans hb.symm

-- What opens under a key is what the export sealed under it.
theorem backup_ideal (hcode : e.code = code)
    (hheader : e.header = backupHeader (.replicate 16 7) (.replicate 24 8))
    (hsecrets : e.secrets = secretsOf owner [1, 2, 3]) (key : FixedBytes 32) :
    backupPrimitives.aead.Ideal key (exportLog {e} key) := by
  have hnonce : e.nonce = .replicate 24 8 := congrArg BackupHeader.nonce hheader
  have hheaderCbor : backupHeaderWire.codec.encode e.header = .ok sealedBackup.2.1 := by
    have hsize := backupHeaderWire_size e.header
    rw [hheader] at hsize ⊢
    exact backupHeaderWire.encode_put (by omega)
  have hplaintext : secretsWire.codec.encode e.secrets = .ok sealedBackup.2.2 := by
    rw [hsecrets]
    exact secretsWire.encode_put (by decide +kernel)
  intro n aad ct msg
  have hdecrypt : backupPrimitives.aead.decrypt key n aad ct =
      if key = backupKey then lookup [sealedBackup] key n aad ct else none := rfl
  rw [hdecrypt]
  constructor
  · intro hopen
    split_ifs at hopen with hkey
    obtain ⟨hmem, henc⟩ := lookup_eq_some.mp hopen
    obtain ⟨rfl, hrest⟩ := Prod.mk.inj (List.mem_singleton.mp hmem)
    obtain ⟨rfl, rfl⟩ := Prod.mk.inj hrest
    have hderived : deriveKey backupLibraries e.code e.header = .ok key := by
      rw [hcode, hheader, hkey]
      rfl
    exact ⟨e, rfl, hnonce, ⟨hheaderCbor, hplaintext, hderived, hnonce ▸ henc⟩⟩
  · rintro ⟨t, rfl, rfl, hwrites⟩
    have hkey : key = backupKey := by
      rw [deriveKey_eq_ok hwrites.derived, hcode, backupKey]
    obtain rfl := Except.ok.inj (hheaderCbor.symm.trans hwrites.header)
    obtain rfl := Except.ok.inj (hplaintext.symm.trans hwrites.secrets)
    rw [if_pos hkey]
    exact lookup_eq_some.mpr ⟨hnonce ▸ List.mem_singleton_self _, hwrites.sealed⟩

end Exported

end Reference

end Zbacs.Core
