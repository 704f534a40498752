import LinuxAbi.Mm.UffdCommit
import LinuxAbi.Mm.UffdDelta

/-!
# What folding computes

`Canonical` says what the planner's range for one VMA is: the hull of the target over the
handler's registrations in that VMA, all of them current. `canonicalRegisterDelta_eq_ok` proves
that the loops compute exactly that, and fail when there is no such range. Since `Canonical`
speaks of the records as a set, and a hull is unique, the order of the slots plays no part.
-/

namespace LinuxAbi.Mm

open PageRange
open Nat
open List
open Lib (Span Grown Hull bind_eq_ok)

section Fold
variable {intent : UffdRegistrationIntent} {snapshot : MappingSnapshot}

instance (r : UffdRegistration) : Decidable (Owned intent snapshot r) :=
  decidable_of_iff
    (r.addressSpace = snapshot.addressSpace ∧ r.handler = intent.handler ∧ r.mode = intent.mode
      ∧ r.range.pageSize = snapshot.range.pageSize ∧ rangesOverlap r.range snapshot.range = true)
    ⟨fun h => ⟨h.1, h.2.1, h.2.2.1, h.2.2.2.1, h.2.2.2.2⟩,
      fun h => ⟨h.addressSpace, h.handler, h.mode, h.pageSize, h.overlap⟩⟩

instance (s d : Span) : Decidable (s.Touches d) := inferInstanceAs (Decidable (_ ∧ _))

/-- The intervals the handler has in the VMA. -/
def parts (records : List UffdRegistration) (intent : UffdRegistrationIntent)
    (snapshot : MappingSnapshot) : Set Span :=
  { s | ∃ r ∈ records, Owned intent snapshot r ∧ r.range.span = s }

/-- The records that fold into a range. -/
def folded (intent : UffdRegistrationIntent) (snapshot : MappingSnapshot) (d : PageRange)
    (records : List UffdRegistration) : List UffdRegistration :=
  records.filter fun r => Owned intent snapshot r ∧ r.range.span.Touches d.span

variable {d target : PageRange} {records : List UffdRegistration} {r : UffdRegistration}

theorem mem_folded :
    r ∈ folded intent snapshot d records
      ↔ r ∈ records ∧ Owned intent snapshot r ∧ r.range.span.Touches d.span := by
  simp [folded]

/-- Every record that folds into the range is current. -/
def FoldsCurrent (intent : UffdRegistrationIntent) (snapshot : MappingSnapshot) (d : PageRange)
    (records : List UffdRegistration) : Prop :=
  ∀ r ∈ records, Owned intent snapshot r → r.range.span.Touches d.span → Current snapshot r

theorem foldsCurrent_cons :
    FoldsCurrent intent snapshot d (r :: records) ↔
      (Owned intent snapshot r → r.range.span.Touches d.span → Current snapshot r)
        ∧ FoldsCurrent intent snapshot d records :=
  forall_mem_cons

/-! ## The folding loop -/

/-- What one join computes. -/
theorem join_eq_ok (h : withPageSize (min d.start r.range.start)
      (max d.stop r.range.stop - min d.start r.range.start) snapshot.range.pageSize = .ok joined) :
    joined.pageSize = snapshot.range.pageSize ∧ joined.span = d.span.join r.range.span := by
  obtain ⟨hsize, hstart, hstop⟩ := withPageSize_eq_ok h
  have hlt : d.start < d.stop := d.range.nonempty
  refine ⟨hsize, Span.ext_iff'.mpr ⟨⟨?_, ?_⟩, ?_, ?_⟩⟩
  · exact le_of_eq hstart.symm
  · show joined.stop ≤ max d.stop r.range.stop
    omega
  · exact le_of_eq hstart
  · show max d.stop r.range.stop ≤ joined.stop
    omega

/-- Ranges of the VMA's page size can be joined. -/
theorem join_of (hd : d.pageSize = snapshot.range.pageSize)
    (hr : r.range.pageSize = snapshot.range.pageSize) :
    ∃ joined, withPageSize (min d.start r.range.start)
      (max d.stop r.range.stop - min d.start r.range.start) snapshot.range.pageSize = .ok joined := by
  have hdstart : snapshot.range.pageSize.bytes ∣ d.start := hd ▸ d.aligned_start
  have hdstop : snapshot.range.pageSize.bytes ∣ d.stop := hd ▸ d.aligned_stop
  have hrstart : snapshot.range.pageSize.bytes ∣ r.range.start := hr ▸ r.range.aligned_start
  have hrstop : snapshot.range.pageSize.bytes ∣ r.range.stop := hr ▸ r.range.aligned_stop
  have hstart : snapshot.range.pageSize.bytes ∣ min d.start r.range.start := by
    rcases le_total d.start r.range.start with hle | hle
    · rwa [min_eq_left hle]
    · rwa [min_eq_right hle]
  have hstop : snapshot.range.pageSize.bytes ∣ max d.stop r.range.stop := by
    rcases le_total d.stop r.range.stop with hle | hle
    · rwa [max_eq_right hle]
    · rwa [max_eq_left hle]
  have hlt : d.start < d.stop := d.range.nonempty
  have hbound : d.stop < 2 ^ 64 := d.range.lt
  have hbound' : r.range.stop < 2 ^ 64 := r.range.range.lt
  obtain ⟨joined, hjoined, -⟩ := withPageSize_of hstart hstop (by omega) (by omega)
  exact ⟨joined, hjoined⟩

/-- A pass joins records of the table only, and one that changes nothing has nothing left to
join. -/
theorem foldPass_inv {base : Span} {all : List UffdRegistration} :
    ∀ {records : List UffdRegistration} {desired after : PageRange},
      desired.pageSize = snapshot.range.pageSize → (∀ r ∈ records, r ∈ all) →
      Grown (parts all intent snapshot) base desired.span →
      foldPass intent snapshot desired records = .ok after →
        Grown (parts all intent snapshot) base after.span
          ∧ (after = desired → ∀ r ∈ records, Owned intent snapshot r →
            r.range.span.Touches desired.span →
              Current snapshot r ∧ r.range.span.Within desired.span)
  | [], desired, after, _, _, hgrown, h => by
    cases h
    exact ⟨hgrown, fun _ r hr => absurd hr not_mem_nil⟩
  | r :: records, desired, after, hsize, hall, hgrown, h => by
    unfold foldPass at h
    obtain ⟨folds, hfolds, h⟩ := bind_eq_ok.mp h
    obtain ⟨hiff, hcur⟩ := (registrationFoldsInto_eq_ok hsize).mp hfolds
    obtain ⟨hhere, hrest⟩ := forall_mem_cons.mp hall
    cases folds with
    | false =>
      obtain ⟨hnext, hclosed⟩ := foldPass_inv hsize hrest hgrown h
      refine ⟨hnext, fun hsame => forall_mem_cons.mpr ⟨?_, hclosed hsame⟩⟩
      intro howned htch
      exact absurd (hiff.mpr ⟨howned, htch⟩) Bool.false_ne_true
    | true =>
      obtain ⟨joined, hjoined, h⟩ := bind_eq_ok.mp h
      obtain ⟨hjsize, hjspan⟩ := join_eq_ok hjoined
      obtain ⟨howned, htch⟩ := hiff.mp rfl
      have hjgrown : Grown (parts all intent snapshot) base joined.span := by
        rw [hjspan]
        exact hgrown.join ⟨r, hhere, howned, rfl⟩ htch
      obtain ⟨hnext, hclosed⟩ := foldPass_inv hjsize hrest hjgrown h
      refine ⟨hnext, fun hsame => ?_⟩
      -- nothing changed in the end, so this join changed nothing
      have hjwithin := (foldPass_grows h).2
      rw [hsame] at hjwithin
      have hdwithin : desired.span.Within joined.span := by
        rw [hjspan]
        exact Span.within_join_left _ _
      have hjsame : joined = desired :=
        ext_span (Span.ext_iff'.mpr ⟨hjwithin, hdwithin⟩) (hjsize.trans hsize.symm)
      rw [hjsame] at hclosed
      refine forall_mem_cons.mpr ⟨fun _ _ => ⟨hcur rfl, ?_⟩, hclosed hsame⟩
      have hrwithin := Span.within_join_right desired.span r.range.span
      rwa [← hjspan, hjsame] at hrwithin

/-- Inside a range that is closed and current, a pass does not fail and stays inside. -/
theorem foldPass_of : ∀ {records : List UffdRegistration} {desired : PageRange},
    desired.pageSize = snapshot.range.pageSize → desired.span.Within e →
    (∀ r ∈ records, Owned intent snapshot r → r.range.span.Touches e →
      Current snapshot r ∧ r.range.span.Within e) →
      ∃ after, foldPass intent snapshot desired records = .ok after ∧ after.span.Within e
  | [], desired, _, hwin, _ => ⟨desired, rfl, hwin⟩
  | r :: records, desired, hsize, hwin, hclosed => by
    obtain ⟨hhere, hrest⟩ := forall_mem_cons.mp hclosed
    unfold foldPass
    by_cases hfolds : Owned intent snapshot r ∧ r.range.span.Touches desired.span
    · obtain ⟨hcur, hrwithin⟩ := hhere hfolds.1 (hfolds.2.of_within hwin)
      have htrue : registrationFoldsInto intent snapshot desired r = .ok true :=
        (registrationFoldsInto_eq_ok hsize).mpr ⟨⟨fun _ => hfolds, fun _ => rfl⟩, fun _ => hcur⟩
      obtain ⟨joined, hjoined⟩ := join_of hsize hfolds.1.pageSize
      obtain ⟨hjsize, hjspan⟩ := join_eq_ok hjoined
      have hjwithin : joined.span.Within e := by
        rw [hjspan]
        exact Span.join_within hwin hrwithin
      obtain ⟨after, hafter, hawithin⟩ := foldPass_of hjsize hjwithin hrest
      refine ⟨after, ?_, hawithin⟩
      rw [htrue]
      dsimp only [bind, Except.bind]
      rw [if_pos rfl, hjoined]
      exact hafter
    · have hfalse : registrationFoldsInto intent snapshot desired r = .ok false :=
        (registrationFoldsInto_eq_ok hsize).mpr
          ⟨⟨(absurd · Bool.false_ne_true), (absurd · hfolds)⟩, (absurd · Bool.false_ne_true)⟩
      obtain ⟨after, hafter, hawithin⟩ := foldPass_of hsize hwin hrest
      refine ⟨after, ?_, hawithin⟩
      rw [hfalse]
      exact hafter

/-- The folding loop as a terminating run: it ends with a pass that fails or changes nothing,
after finitely many that changed the range. -/
inductive FoldStops (records : List UffdRegistration) (intent : UffdRegistrationIntent)
    (snapshot : MappingSnapshot) : PageRange → Except MmError PageRange → Prop
  | failed (h : foldPass intent snapshot desired records = .error e) :
      FoldStops records intent snapshot desired (.error e)
  | settled (h : foldPass intent snapshot desired records = .ok desired) :
      FoldStops records intent snapshot desired (.ok desired)
  | again (h : foldPass intent snapshot desired records = .ok grown) (hne : grown ≠ desired)
      (hrest : FoldStops records intent snapshot grown result) :
      FoldStops records intent snapshot desired result

theorem foldLoop_eq (records : List UffdRegistration) (desired : PageRange) :
    foldLoop records intent snapshot desired =
      match foldPass intent snapshot desired records with
      | .error e => .error e
      | .ok after =>
        if after = desired then .ok desired else foldLoop records intent snapshot after := by
  rw [foldLoop]
  split
  next e hpass => rw [hpass]
  next after hpass =>
  rw [hpass]
  rfl

/-- The loop ends. -/
theorem foldStops (records : List UffdRegistration) (desired : PageRange) :
    FoldStops records intent snapshot desired (foldLoop records intent snapshot desired) := by
  induction desired using foldLoop.induct records intent snapshot with
  | case1 desired e hpass =>
    rw [foldLoop_eq, hpass]
    exact .failed hpass
  | case2 desired hpass =>
    rw [foldLoop_eq, hpass]
    dsimp only
    rw [if_pos rfl]
    exact .settled hpass
  | case3 desired after hpass hne ih =>
    rw [foldLoop_eq, hpass]
    dsimp only
    rw [if_neg hne]
    exact .again hpass hne ih

/-- What the loop returns is the hull of what it started from. -/
theorem FoldStops.hull (h : FoldStops records intent snapshot desired result)
    (hsize : desired.pageSize = snapshot.range.pageSize)
    (hgrown : Grown (parts records intent snapshot) base desired.span) (hd : result = .ok d) :
    d.pageSize = snapshot.range.pageSize ∧ FoldsCurrent intent snapshot d records
      ∧ Hull (parts records intent snapshot) base d.span := by
  induction h with
  | failed => cases hd
  | settled hpass =>
    cases hd
    obtain ⟨hnext, hclosed⟩ := foldPass_inv hsize (fun _ hr => hr) hgrown hpass
    refine ⟨hsize, fun r hr howned htch => (hclosed rfl r hr howned htch).1, hnext, ?_⟩
    rintro s ⟨r, hr, howned, rfl⟩ htch
    exact (hclosed rfl r hr howned htch).2
  | again hpass _ _ ih =>
    obtain ⟨hnext, -⟩ := foldPass_inv hsize (fun _ hr => hr) hgrown hpass
    exact ih ((foldPass_grows hpass).1.trans hsize) hnext hd

/-- Inside a range that is closed and current the loop does not fail. -/
theorem FoldStops.ok (h : FoldStops records intent snapshot desired result)
    (hsize : desired.pageSize = snapshot.range.pageSize) (hwin : desired.span.Within e)
    (hclosed : ∀ r ∈ records, Owned intent snapshot r → r.range.span.Touches e →
      Current snapshot r ∧ r.range.span.Within e) : ∃ d, result = .ok d := by
  induction h with
  | failed hpass =>
    obtain ⟨after, hafter, -⟩ := foldPass_of hsize hwin hclosed
    rw [hpass] at hafter
    cases hafter
  | settled => exact ⟨_, rfl⟩
  | again hpass _ _ ih =>
    obtain ⟨after, hafter, hawithin⟩ := foldPass_of hsize hwin hclosed
    rw [hpass] at hafter
    cases hafter
    exact ih ((foldPass_grows hpass).1.trans hsize) hawithin

/-! ## The other loops -/

theorem checkTarget_eq_ok : ∀ {records : List UffdRegistration},
    checkTarget intent snapshot target records = .ok () ↔
      ∀ r ∈ records, r.addressSpace = snapshot.addressSpace →
        rangesOverlap r.range target = true → Current snapshot r ∧ r.handler = intent.handler
  | [] => ⟨fun _ r hr => absurd hr not_mem_nil, fun _ => rfl⟩
  | r :: records => by
    unfold checkTarget
    rw [forall_mem_cons, ← checkTarget_eq_ok]
    split
    next hunder =>
      rw [bind_eq_ok]
      constructor
      · rintro ⟨_, hval, h⟩
        split at h
        · cases h
        next hhdl =>
          exact ⟨fun _ _ => ⟨revalidate_eq_ok.mp hval, not_not.mp hhdl⟩, h⟩
      · rintro ⟨hhere, hrest⟩
        obtain ⟨hcur, hhdl⟩ := hhere hunder.1 hunder.2
        refine ⟨(), revalidate_eq_ok.mpr hcur, ?_⟩
        rw [if_neg (not_not.mpr hhdl)]
        exact hrest
    next hunder =>
    constructor
    · exact fun h => ⟨fun hspace hover => absurd ⟨hspace, hover⟩ hunder, h⟩
    · exact fun h => h.2

/-- The answers of a scan for the records that fold. -/
theorem folds_cases (hsize : d.pageSize = snapshot.range.pageSize) (r : UffdRegistration)
    (records : List UffdRegistration) :
    (registrationFoldsInto intent snapshot d r = .ok true
        ∧ folded intent snapshot d (r :: records) = r :: folded intent snapshot d records
        ∧ (FoldsCurrent intent snapshot d (r :: records) ↔ FoldsCurrent intent snapshot d records))
      ∨ (registrationFoldsInto intent snapshot d r = .ok false
        ∧ folded intent snapshot d (r :: records) = folded intent snapshot d records
        ∧ (FoldsCurrent intent snapshot d (r :: records) ↔ FoldsCurrent intent snapshot d records))
      ∨ (∃ e, registrationFoldsInto intent snapshot d r = .error e)
        ∧ ¬ FoldsCurrent intent snapshot d (r :: records) := by
  by_cases hfolds : Owned intent snapshot r ∧ r.range.span.Touches d.span
  · by_cases hcur : Current snapshot r
    · refine .inl ⟨?_, ?_, ?_⟩
      · exact (registrationFoldsInto_eq_ok hsize).mpr
          ⟨⟨fun _ => hfolds, fun _ => rfl⟩, fun _ => hcur⟩
      · exact filter_cons_of_pos (decide_eq_true hfolds)
      · rw [foldsCurrent_cons]
        exact ⟨fun h => h.2, fun h => ⟨fun _ _ => hcur, h⟩⟩
    · refine .inr (.inr ⟨?_, fun h => hcur (h r mem_cons_self hfolds.1 hfolds.2)⟩)
      cases hresult : registrationFoldsInto intent snapshot d r with
      | error e => exact ⟨e, rfl⟩
      | ok folds =>
        obtain ⟨hiff, hthen⟩ := (registrationFoldsInto_eq_ok hsize).mp hresult
        exact absurd (hthen (hiff.mpr hfolds)) hcur
  · refine .inr (.inl ⟨?_, ?_, ?_⟩)
    · exact (registrationFoldsInto_eq_ok hsize).mpr
        ⟨⟨(absurd · Bool.false_ne_true), (absurd · hfolds)⟩, (absurd · Bool.false_ne_true)⟩
    · exact filter_cons_of_neg (by simpa using hfolds)
    · rw [foldsCurrent_cons]
      exact ⟨fun h => h.2, fun h => ⟨fun howned htch => absurd ⟨howned, htch⟩ hfolds, h⟩⟩

theorem countConnected_eq_ok (hsize : desired.range.pageSize = snapshot.range.pageSize) :
    ∀ {records : List UffdRegistration} {connected : Nat} {exact : Bool},
      countConnected intent snapshot desired connected exact records = .ok answer ↔
        FoldsCurrent intent snapshot desired.range records
          ∧ answer = (connected + (folded intent snapshot desired.range records).length,
            exact || (folded intent snapshot desired.range records).any (·.request = desired))
  | [], connected, exact => by
    simp [countConnected, FoldsCurrent, folded, eq_comm]
  | r :: records, connected, exact => by
    unfold countConnected
    rcases folds_cases hsize r records with ⟨hok, hlist, hiff⟩ | ⟨hok, hlist, hiff⟩ | ⟨⟨e, he⟩, hnot⟩
    · rw [hok, hlist, hiff]
      dsimp only [bind, Except.bind]
      rw [if_pos rfl, countConnected_eq_ok hsize, length_cons, any_cons, Bool.or_assoc,
        add_assoc, add_comm 1]
    · rw [hok, hlist, hiff]
      dsimp only [bind, Except.bind]
      rw [if_neg Bool.false_ne_true, countConnected_eq_ok hsize]
    · rw [he]
      exact ⟨fun h => (nomatch h), fun h => absurd h.1 hnot⟩

theorem emitFolded_eq_ok (hsize : d.pageSize = snapshot.range.pageSize) :
    ∀ {records : List UffdRegistration} {ids : List UffdRegistrationId},
      UffdRegistrationTable.emitFolded intent snapshot d records = .ok ids ↔
        FoldsCurrent intent snapshot d records
          ∧ ids = (folded intent snapshot d records).map (·.id)
  | [], ids => by
    simp [UffdRegistrationTable.emitFolded, FoldsCurrent, folded, eq_comm]
  | r :: records, ids => by
    unfold UffdRegistrationTable.emitFolded
    rcases folds_cases hsize r records with ⟨hok, hlist, hiff⟩ | ⟨hok, hlist, hiff⟩ | ⟨⟨e, he⟩, hnot⟩
    · rw [hok, hlist, hiff]
      show (UffdRegistrationTable.emitFolded intent snapshot d records >>= fun emitted =>
        pure (r.id :: emitted)) = .ok ids ↔ _
      rw [bind_eq_ok]
      constructor
      · rintro ⟨emitted, hemitted, h⟩
        obtain ⟨hcur, rfl⟩ := (emitFolded_eq_ok hsize).mp hemitted
        cases h
        exact ⟨hcur, rfl⟩
      · rintro ⟨hcur, rfl⟩
        exact ⟨_, (emitFolded_eq_ok hsize).mpr ⟨hcur, rfl⟩, rfl⟩
    · rw [hok, hlist, hiff, ← emitFolded_eq_ok hsize]
      show (UffdRegistrationTable.emitFolded intent snapshot d records >>= fun emitted =>
        pure emitted) = .ok ids ↔ _
      rw [bind_eq_ok]
      constructor
      · rintro ⟨emitted, hemitted, h⟩
        cases h
        exact hemitted
      · exact fun h => ⟨ids, h, rfl⟩
    · rw [he]
      exact ⟨fun h => (nomatch h), fun h => absurd h.1 hnot⟩

/-! ## One VMA -/

/-- The planner's range for one VMA. -/
structure Canonical (records : List UffdRegistration) (intent : UffdRegistrationIntent)
    (snapshot : MappingSnapshot) (target d : PageRange) : Prop where
  pageSize : d.pageSize = snapshot.range.pageSize
  clear : ∀ r ∈ records, r.addressSpace = snapshot.addressSpace →
    rangesOverlap r.range target = true → Current snapshot r ∧ r.handler = intent.handler
  current : FoldsCurrent intent snapshot d records
  hull : Hull (parts records intent snapshot) target.span d.span

theorem Canonical.unique (h : Canonical records intent snapshot target d)
    (h' : Canonical records intent snapshot target e) : d = e :=
  ext_span (h.hull.unique h'.hull) (h.pageSize.trans h'.pageSize.symm)

/-- A record that folds into the planner's range lies in it. -/
theorem Canonical.within_of_folds (h : Canonical records intent snapshot target d)
    (hr : r ∈ folded intent snapshot d records) : r.range.span.Within d.span := by
  obtain ⟨hmem, howned, htch⟩ := mem_folded.mp hr
  exact h.hull.closed _ ⟨r, hmem, howned, rfl⟩ htch

/-- What the intersection of two ranges is. -/
theorem pageRangeIntersection_eq_some (h : pageRangeIntersection left right = some target) :
    left.pageSize = right.pageSize ∧ target.pageSize = left.pageSize
      ∧ target.start = max left.start right.start ∧ target.stop = min left.stop right.stop := by
  unfold pageRangeIntersection at h
  split at h
  · cases h
  next hsize =>
  dsimp only at h
  split at h
  · cases h
  cases hmade : withPageSize (max left.start right.start)
      (min left.stop right.stop - max left.start right.start) left.pageSize with
  | error e =>
    rw [hmade] at h
    cases h
  | ok r =>
    rw [hmade] at h
    cases h
    obtain ⟨hmsize, hstart, hstop⟩ := withPageSize_eq_ok hmade
    exact ⟨not_not.mp hsize, hmsize, hstart, by omega⟩

theorem target_within (h : pageRangeIntersection intent.range snapshot.range = some target) :
    target.span.Within snapshot.range.span := by
  obtain ⟨-, -, hstart, hstop⟩ := pageRangeIntersection_eq_some h
  refine ⟨?_, ?_⟩
  · show snapshot.range.start ≤ target.start
    omega
  · show target.stop ≤ snapshot.range.stop
    omega

theorem mem_target (h : pageRangeIntersection intent.range snapshot.range = some target) :
    address ∈ target.span ↔ intent.range.Covers address ∧ snapshot.range.Covers address := by
  obtain ⟨-, -, hstart, hstop⟩ := pageRangeIntersection_eq_some h
  show target.start ≤ address ∧ address < target.stop ↔ _
  unfold Covers
  omega

/-- The planner's range stays inside the VMA. -/
theorem Canonical.within (h : Canonical records intent snapshot target d)
    (htgt : target.span.Within snapshot.range.span) : d.span.Within snapshot.range.span := by
  -- both ends are in the target or in a record that folds, and those are inside
  have hinside : ∀ x ∈ d.span, x ∈ snapshot.range.span := by
    intro x hx
    rcases h.hull.covered x hx with hbase | ⟨s, ⟨r, hr, howned, rfl⟩, hwin, hmem⟩
    · exact htgt.mem hbase
    · exact (h.current r hr howned hwin.meets.touches).within.mem hmem
  have hlt : d.start < d.stop := d.range.nonempty
  have hfirst := hinside d.start ⟨le_refl _, hlt⟩
  have hlast := hinside (d.stop - 1) ⟨le_sub_one_of_lt hlt, sub_one_lt_of_lt hlt⟩
  refine ⟨hfirst.1, ?_⟩
  have hlt' : d.stop - 1 < snapshot.range.stop := hlast.2
  show d.stop ≤ snapshot.range.stop
  omega

/-- The request the planner makes of its range. -/
def desiredRequest (intent : UffdRegistrationIntent) (snapshot : MappingSnapshot) (d : PageRange) :
    UffdRegistrationRequest where
  handler := intent.handler
  addressSpace := snapshot.addressSpace
  mapping := snapshot.mapping
  generation := snapshot.generation
  range := d
  mode := intent.mode
  isMissing := intent.isMissing

/-- The planner's answer for one VMA: there is a canonical range, and it is this one. -/
theorem canonicalRegisterDelta_eq_ok {t : UffdRegistrationTable}
    (hkind : snapshot.kind = .anonymousPrivate)
    (htgt : pageRangeIntersection intent.range snapshot.range = some target) :
    t.canonicalRegisterDelta intent snapshot = .ok delta ↔
      ∃ d, Canonical t.live intent snapshot target d
        ∧ delta = ⟨desiredRequest intent snapshot d,
          (folded intent snapshot d t.live).length = 1
            && (folded intent snapshot d t.live).any (·.request = desiredRequest intent snapshot d)⟩ := by
  obtain ⟨hsizes, htsize, -, -⟩ := pageRangeIntersection_eq_some htgt
  have hsize := htsize.trans hsizes
  have hnew : ∀ d : PageRange, d.pageSize = snapshot.range.pageSize →
      d.span.Within snapshot.range.span →
      UffdRegistrationRequest.new intent.handler snapshot d intent.mode
        = .ok (desiredRequest intent snapshot d) := by
    intro d hd hwin
    have hcont := contains_iff.mpr ⟨hd.symm, hwin⟩
    unfold UffdRegistrationRequest.new
    rw [if_neg (not_not.mpr hkind), if_neg (not_not.mpr hcont), dif_pos intent.isMissing]
    rfl
  unfold UffdRegistrationTable.canonicalRegisterDelta
  rw [htgt]
  rw [bind_eq_ok]
  constructor
  · rintro ⟨_, hclear, h⟩
    obtain ⟨d, hloop, h⟩ := bind_eq_ok.mp h
    obtain ⟨hdsize, hcur, hhull⟩ := (foldStops t.live target).hull hsize (Lib.grown_base _ _) hloop
    have hcan : Canonical t.live intent snapshot target d :=
      ⟨hdsize, checkTarget_eq_ok.mp hclear, hcur, hhull⟩
    rw [hnew d hdsize (hcan.within (target_within htgt))] at h
    obtain ⟨_, hdesired, h⟩ := bind_eq_ok.mp h
    cases hdesired
    obtain ⟨answer, hcount, h⟩ := bind_eq_ok.mp h
    obtain ⟨-, rfl⟩ := (countConnected_eq_ok hdsize).mp hcount
    cases h
    refine ⟨d, hcan, ?_⟩
    rw [zero_add, Bool.false_or]
    rfl
  · rintro ⟨d, hcan, rfl⟩
    have hclosed : ∀ r ∈ t.live, Owned intent snapshot r → r.range.span.Touches d.span →
        Current snapshot r ∧ r.range.span.Within d.span := fun r hr howned htch =>
      ⟨hcan.current r hr howned htch,
        hcan.hull.closed _ ⟨r, hr, howned, rfl⟩ htch⟩
    obtain ⟨e, hloop⟩ := (foldStops t.live target).ok hsize hcan.hull.base_within hclosed
    have hclear := checkTarget_eq_ok.mpr hcan.clear
    -- the loop returns a canonical range, and there is only one
    obtain ⟨hesize, hcur, hhull⟩ := (foldStops t.live target).hull hsize (Lib.grown_base _ _) hloop
    have hsame : e = d := Canonical.unique ⟨hesize, hcan.clear, hcur, hhull⟩ hcan
    subst hsame
    refine ⟨(), hclear, ?_⟩
    rw [hloop]
    dsimp only [bind, Except.bind]
    rw [hnew e hesize (hcan.within (target_within htgt))]
    dsimp only
    have hcount : countConnected intent snapshot (desiredRequest intent snapshot e) 0 false t.live
        = .ok (0 + (folded intent snapshot e t.live).length, false
          || (folded intent snapshot e t.live).any (·.request = desiredRequest intent snapshot e)) :=
      (countConnected_eq_ok hesize).mpr ⟨hcur, rfl⟩
    rw [hcount]
    rw [zero_add, Bool.false_or]
    rfl

end Fold

end LinuxAbi.Mm
