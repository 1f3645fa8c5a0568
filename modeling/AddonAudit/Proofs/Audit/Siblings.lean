import AddonAudit.Proofs.Audit.Contents

/-!
# Packages next to other files

The audit of a package in a file shares one bundle with the files around it. What it finds does not
depend on these files, with one exception: an error that was recorded before closes the gates
between its tiers, unless the audit is determined to go on. Two audits in which the package is met
with the gates alike file the same records under it.
-/

namespace AddonAudit.Audit

open Bundle

variable {config : Config} {audit other : Package → Bool → Audit Unit} {p q : Package}
  {path : String} {isAddon : Bool} {s t : Session} {b c d : Bundle} {depth n : Nat}

/-! ## The depth -/

/-- The packages in a package are nested at most so deep, the package itself included. -/
def NestsWithin (config : Config) : Nat → Package → Prop
  | 0, _ => False
  | n + 1, p =>
      ∀ path ∈ p.paths, ∀ q isAddon, Nested config p path q isAddon → NestsWithin config n q

theorem checkFiles_congr {list : List String} (same : ∀ path ∈ list, ∀ q isAddon,
    Nested config p path q isAddon → audit q isAddon = other q isAddon) :
    checkFiles audit config p list = checkFiles other config p list := by
  induction list with
  | nil => rfl
  | cons path rest ih =>
      obtain ⟨here, later⟩ := List.forall_mem_cons.1 same
      have first : examine audit config p path = examine other config p path := by
        by_cases held : ∃ q isAddon, Nested config p path q isAddon
        · obtain ⟨q, isAddon, nested⟩ := held
          rw [examine_of_nested nested, examine_of_nested nested, here q isAddon nested]
        · exact examine_of_absent other fun q isAddon nested => held ⟨q, isAddon, nested⟩
      rw [checkFiles_cons, checkFiles_cons, first, ih later]

/-- An audit that goes down far enough is the same at every depth. -/
theorem tiers_of_nestsWithin (nests : NestsWithin config n p) (deep : n ≤ depth)
    (hasManifest : Bool) : tiers config depth p hasManifest = tiers config n p hasManifest := by
  induction n generalizing depth p hasManifest with
  | zero => exact nests.elim
  | succ n ih =>
      obtain ⟨depth, rfl⟩ : ∃ less, depth = less + 1 := ⟨depth - 1, by omega⟩
      have files : checkFiles (tiers config depth) config p p.paths =
          checkFiles (tiers config n) config p p.paths := by
        refine checkFiles_congr fun path listed q isAddon nested => ?_
        exact ih (nests path listed q isAddon nested) (Nat.le_of_succ_le_succ deep) isAddon
      rw [tiers_succ, tiers_succ, laterTiers, laterTiers, checkContents, checkContents, files]

/-! ## The gate -/

/-- The tiers that are not left out in any case: the first one, and the second one of a package
without a manifest. -/
def opening (config : Config) (q : Package) (isAddon : Bool) (b : Bundle) : Bundle :=
  if isAddon then firstTier config q true b else secondTier q (firstTier config q false b)

/-- The audit of a package with the gates closed or left to its own records. -/
def audited (closed : Bool) (config : Config) (depth : Nat) (q : Package) (isAddon : Bool) :
    Audit Unit :=
  if closed then update (opening config q isAddon) else tiers config (depth + 1) q isAddon

theorem Framed.comp {f g : Bundle → Bundle} {G : Bundle → Prop} (first : Framed G [] (update f))
    (second : Framed G [] (update g)) : Framed G [] (update fun b => g (f b)) := by
  rw [← update_update]
  exact first.seq second

theorem firstTier_framed (config : Config) (q : Package) (isAddon : Bool) :
    Framed (fun _ => True) [] (update (firstTier config q isAddon)) := by
  cases isAddon with
  | false => exact .tier 1
  | true => exact (Framed.tier 1).comp (.change (Layout.isRun_check config q))

theorem secondTier_framed (q : Package) : Framed (fun _ => True) [] (update (secondTier q)) :=
  (Framed.tier 2).comp (.change (Registration.isRun_check q))

theorem opening_framed (config : Config) (q : Package) (isAddon : Bool) :
    Framed (fun _ => True) [] (update (opening config q isAddon)) := by
  cases isAddon with
  | true => exact firstTier_framed config q true
  | false => exact (firstTier_framed config q false).comp (secondTier_framed q)

/-- After a tier the gate is closed if it was closed before or by what the tier has recorded. -/
theorem Framed.halts {f : Bundle → Bundle} (framed : Framed (fun _ => True) [] (update f))
    (view : SameView b c) (fresh : ∀ r ∈ c.messages, r.uid < c.next) :
    Audit.halts config (f c) = (Audit.halts config c || Audit.halts config (f b.blank)) := by
  exact halts_atop config
    (framed.frames fresh trivial (.start view [] none) List.nil_prefix).2.bundles

theorem tiers_eq_audited (config : Config) (depth : Nat) (q : Package) (isAddon : Bool)
    (fresh : ∀ r ∈ s.bundle.messages, r.uid < s.bundle.next) :
    tiers config (depth + 1) q isAddon s =
      audited (halts config s.bundle) config depth q isAddon s := by
  unfold audited
  split
  next closed =>
    have first : halts config (firstTier config q isAddon s.bundle) = true := by
      rw [(firstTier_framed config q isAddon).halts (.refl _) fresh, closed, Bool.true_or]
    have second : halts config (secondTier q (firstTier config q isAddon s.bundle)) = true := by
      have gate := (firstTier_framed config q isAddon).comp (secondTier_framed q)
      rw [gate.halts (.refl _) fresh, closed, Bool.true_or]
    rw [tiers_apply, passesFirst, first]
    cases isAddon with
    | true => rfl
    | false =>
        rw [laterTiers_apply]
        exact if_pos second
  · rfl

theorem Framed.mono {x : Audit Unit} {place : List String} {G H : Bundle → Prop}
    (framed : Framed G place x) (weaker : ∀ b, H b → G b) : Framed H place x :=
  ⟨framed.unwinds, fun fresh holds onTop here => framed.frames fresh (weaker _ holds) onTop here⟩

/-- With the gates alike, the audit of a package does the same. -/
theorem audited_framed (closed : Bool) (config : Config) (depth : Nat) (q : Package)
    (isAddon : Bool) :
    Framed (halts config · = closed) [] (audited closed config depth q isAddon) := by
  cases closed with
  | true => exact (opening_framed config q isAddon).mono fun _ _ => trivial
  | false => exact framed_rules.tiers (depth + 1) q trivial isAddon

/-! ## The files around -/

/-- What a package in a file gets from around it. -/
structure SameAround (b c : Bundle) : Prop where
  tier : c.tier = b.tier
  supported : c.supported = b.supported
  shared : c.shared = b.shared
  stack : c.packageStack = b.packageStack

namespace SameAround

theorem refl (b : Bundle) : SameAround b b := ⟨rfl, rfl, rfl, rfl⟩

theorem trans (h : SameAround b c) (k : SameAround c d) : SameAround b d :=
  ⟨k.tier.trans h.tier, k.supported.trans h.supported, k.shared.trans h.shared,
    k.stack.trans h.stack⟩

/-- Packages with the same around them look the same when they are entered. -/
theorem enter (h : SameAround b c) (name : String) : SameView (b.enter name) (c.enter name) := by
  refine ⟨rfl, rfl, h.shared, h.supported, h.tier, ?_⟩
  rw [enter_packageStack, enter_packageStack, h.stack]

end SameAround

theorem examine_sameAround (depth : Nat) (listed : path ∈ p.paths) (s : Session) :
    SameAround s.bundle (examine (tiers config depth) config p path s).2.bundle := by
  have inherited : Inherited s (examine (tiers config depth) config p path s).2 :=
    inherited_rules.examine trivial listed
      (fun q isAddon _ => inherited_rules.tiers depth q trivial isAddon) s
  have unwinds : Unwinds (examine (tiers config depth) config p path) :=
    unwinds_rules.examine trivial listed fun q isAddon _ => tiers_unwinds depth q isAddon
  refine ⟨?_, inherited.supported, inherited.shared, (unwinds s).packageStack⟩
  by_cases held : ∃ q isAddon, Nested config p path q isAddon
  · obtain ⟨q, isAddon, nested⟩ := held
    rw [examine_of_nested nested]
    exact (within_restores (tiers_unwinds depth q isAddon) path s).tier
  · exact (examine_sameSetting (fun q isAddon nested => held ⟨q, isAddon, nested⟩) s).tier

/-- Files with different names are filed apart. -/
theorem not_prefix_of_ne {stack file : List String} {name other : String} (ne : other ≠ name)
    (filed : file = [] ∨ stack ++ [other] <+: file) : ¬ stack ++ [name] <+: file := by
  intro here
  rcases filed with rfl | there
  · have nonempty : stack ++ [name] ≠ [] :=
      List.append_ne_nil_of_right_ne_nil stack (List.cons_ne_nil name [])
    exact nonempty (List.prefix_nil.1 here)
  · have shorter : stack ++ [name] <+: stack ++ [other] :=
      List.prefix_of_prefix_length_le here there (by simp)
    have same := List.append_cancel_left (shorter.eq_of_length (by simp))
    exact ne (List.cons.inj same).1.symm

/-- Nothing was recorded under a file, and what is around it has stayed. -/
structure Spares (path : String) (b d : Bundle) : Prop where
  around : SameAround b d
  adds : Adds (fun file => ¬ b.packageStack ++ [path] <+: file) b d

theorem Spares.refl (fresh : ∀ r ∈ b.messages, r.uid < b.next) : Spares path b b :=
  ⟨.refl b, .refl fresh⟩

theorem Spares.trans (h : Spares path b c) (k : Spares path c d) : Spares path b d := by
  refine ⟨h.around.trans k.around, h.adds.trans ?_⟩
  rw [← h.around.stack]
  exact k.adds

theorem examine_spares (depth : Nat) {other : String} (ne : other ≠ path) (listed : other ∈ p.paths)
    (s : Session) (fresh : ∀ r ∈ s.bundle.messages, r.uid < s.bundle.next) :
    Spares path s.bundle (examine (tiers config depth) config p other s).2.bundle := by
  have adding : Adding [other] (examine (tiers config depth) config p other) :=
    adding_rules.examine trivial listed fun q isAddon _ =>
      adding_rules.tiers depth q trivial isAddon
  refine ⟨examine_sameAround depth listed s, ?_⟩
  exact (adding.adds fresh (List.prefix_refl _)).mono fun file => not_prefix_of_ne ne

/-- Other files spare a file. -/
theorem checkFiles_spares (depth : Nat) {list : List String}
    (listed : ∀ other ∈ list, other ∈ p.paths) (apart : path ∉ list) (s : Session)
    (fresh : ∀ r ∈ s.bundle.messages, r.uid < s.bundle.next) :
    Spares path s.bundle (checkFiles (tiers config depth) config p list s).2.bundle := by
  induction list generalizing s with
  | nil => exact .refl fresh
  | cons other rest ih =>
      obtain ⟨inPackage, listed⟩ := List.forall_mem_cons.1 listed
      obtain ⟨ne, apart⟩ := List.ne_and_not_mem_of_not_mem_cons apart
      rw [checkFiles_cons]
      generalize looked : checkDeadline s = outcome
      obtain ⟨_ | _, t⟩ := outcome
      · rw [bind_error looked, bundle_of_checkDeadline looked]
        exact .refl fresh
      rw [bind_ok looked]
      rw [← bundle_of_checkDeadline looked] at fresh ⊢
      have spared : Spares path t.bundle (examine (tiers config depth) config p other t).2.bundle :=
        examine_spares depth ne.symm inPackage t fresh
      generalize examined : examine (tiers config depth) config p other t = outcome at spared
      obtain ⟨_ | _, u⟩ := outcome
      · rw [bind_error examined]
        exact spared
      · rw [bind_ok examined]
        exact spared.trans (ih listed apart u spared.adds.fresh)

/-! ## The package -/

/-- The records that are filed under a chain of names. -/
def filedUnder (chain : List String) (list : List Record) : List Record :=
  list.filter fun r => chain.isPrefixOf r.file

section Filed

variable {chain : List String} {list : List Record}

theorem filedUnder_of_apart (apart : ∀ r ∈ list, ¬ chain <+: r.file) :
    filedUnder chain list = [] := by
  rw [filedUnder, List.filter_eq_nil_iff]
  intro r mem
  rw [List.isPrefixOf_iff_prefix]
  exact apart r mem

theorem filedUnder_append (more : List Record) :
    filedUnder chain (list ++ more) = filedUnder chain list ++ filedUnder chain more :=
  List.filter_append ..

/-- Where a record is filed does not depend on its number. -/
theorem map_unnumbered_filedUnder :
    (filedUnder chain list).map Record.unnumbered =
      filedUnder chain (list.map Record.unnumbered) := by
  rw [filedUnder, filedUnder, List.filter_map]
  rfl

end Filed

theorem checkFiles_append (xs ys : List String) :
    checkFiles audit config p (xs ++ ys) = (do
      checkFiles audit config p xs
      checkFiles audit config p ys) := by
  induction xs with
  | nil => rfl
  | cons path rest ih =>
      rw [List.cons_append, checkFiles_cons, checkFiles_cons, ih]
      simp only [bind_assoc]

theorem ComesTo.split {list : List String} (comes : ComesTo audit config p list s path t) :
    ∃ before after u, list = before ++ path :: after ∧
      checkFiles audit config p before s = (.ok (), u) ∧ checkDeadline u = (.ok (), t) := by
  induction comes with
  | here looked => exact ⟨[], _, _, rfl, rfl, looked⟩
  | later looked examined _ ih =>
      obtain ⟨before, after, u, rfl, checked, looked'⟩ := ih
      refine ⟨_ :: before, after, u, rfl, ?_, looked'⟩
      rw [checkFiles_cons, bind_ok looked, bind_ok examined, checked]

/-- Where an audit without a deadline comes to a file that is listed once, it has spared the file,
and goes on with the file and with others. -/
theorem ComesTo.spares (once : p.paths.count path = 1) (fresh : ∀ r ∈ b.messages, r.uid < b.next)
    (comes : ComesTo (tiers config depth) config p p.paths ⟨b, none⟩ path t) :
    t.clock = none ∧ Spares path b t.bundle ∧ path ∈ p.paths ∧
      ∃ after, path ∉ after ∧ (∀ other ∈ after, other ∈ p.paths) ∧
        checkFiles (tiers config depth) config p p.paths ⟨b, none⟩ = (do
          examine (tiers config depth) config p path
          checkFiles (tiers config depth) config p after : Audit Unit) t := by
  obtain ⟨before, after, u, list, checked, looked⟩ := comes.split
  obtain ⟨notBefore, notAfter⟩ : path ∉ before ∧ path ∉ after := by
    rw [list, List.count_append, List.count_cons_self] at once
    rw [← List.count_eq_zero, ← List.count_eq_zero]
    omega
  have listed : ∀ other ∈ before, other ∈ p.paths := by
    rw [list]
    exact fun other mem => List.mem_append_left _ mem
  have untimed : u.clock = none := by
    have inherited :
        Inherited ⟨b, none⟩ (checkFiles (tiers config depth) config p before ⟨b, none⟩).2 :=
      inherited_rules.checkFiles (fun q isAddon _ => inherited_rules.tiers depth q trivial isAddon)
        trivial
        listed _
    rw [checked] at inherited
    exact inherited.untimed rfl
  have spared :
      Spares path b (checkFiles (tiers config depth) config p before ⟨b, none⟩).2.bundle :=
    checkFiles_spares depth listed notBefore ⟨b, none⟩ fresh
  rw [checked] at spared
  obtain rfl : u = t := by
    rw [checkDeadline_of_untimed untimed] at looked
    exact (Prod.mk.inj looked).2
  refine ⟨untimed, spared, ?_, after, notAfter, ?_, ?_⟩
  · rw [list]
    exact List.mem_append_right _ List.mem_cons_self
  · rw [list]
    exact fun other mem => List.mem_append_right _ (List.mem_cons_of_mem _ mem)
  · rw [list, checkFiles_append, bind_ok checked, checkFiles_cons, bind_ok looked]

theorem spares_after (depth : Nat) {after : List String} (apart : path ∉ after)
    (listed : ∀ other ∈ after, other ∈ p.paths) {x : Audit Unit}
    (fresh : ∀ r ∈ (x s).2.bundle.messages, r.uid < (x s).2.bundle.next) :
    Spares path (x s).2.bundle ((do
      x
      checkFiles (tiers config depth) config p after : Audit Unit) s).2.bundle := by
  generalize ran : x s = outcome at fresh
  obtain ⟨_ | _, t⟩ := outcome
  · rw [bind_error ran]
    exact .refl fresh
  · rw [bind_ok ran]
    exact checkFiles_spares depth listed apart t fresh

section Package

variable {a : Bundle} (nested : Nested config p path q isAddon)
  (nests : NestsWithin config (n + 1) q) (deep : n + 1 ≤ depth)

include nested nests deep

/-- A package in a file records what it records alone with the gates alike. -/
theorem examine_gains (around : SameAround a b) (fresh : ∀ r ∈ b.messages, r.uid < b.next)
    (severity : Severity) :
    Gains b (examine (tiers config depth) config p path ⟨b, none⟩).2.bundle severity
      ((audited (halts config b) config n q isAddon ⟨(a.enter path).blank, none⟩).2.bundle.records
        severity) := by
  obtain ⟨new, added, same⟩ := (audited_framed (halts config b) config n q isAddon).gains
    (around.enter path) fresh rfl none severity
  refine ⟨new, ?_, same⟩
  rw [examine_of_nested nested, (within_sameRecords ..).records, tiers_of_nestsWithin nests deep,
    tiers_eq_audited config n q isAddon fresh]
  rw [(SameRecords.enter path b).records] at added
  exact added

/-- What the contents of the outer package file under a package in a file is what that records
alone, with the gates as the files before it have left them. -/
theorem checkContents_filed (once : p.paths.count path = 1) (around : SameAround a b)
    (fresh : ∀ r ∈ b.messages, r.uid < b.next)
    (comes : ComesTo (tiers config depth) config p p.paths ⟨b, none⟩ path t) (severity : Severity) :
    ∃ new, (checkContents (tiers config depth) config p ⟨b, none⟩).2.bundle.records severity =
        b.records severity ++ new ∧
      (filedUnder (b.packageStack ++ [path]) new).map Record.unnumbered =
        (filedUnder (b.packageStack ++ [path])
          ((audited (halts config t.bundle) config n q isAddon
            ⟨(a.enter path).blank, none⟩).2.bundle.records severity)).map Record.unnumbered := by
  obtain ⟨untimed, spared, listed, after, apart, listedAfter, split⟩ := comes.spares once fresh
  obtain ⟨c, clock⟩ := t
  obtain rfl : clock = none := untimed
  have adding : Adding [path] (examine (tiers config depth) config p path) :=
    adding_rules.examine trivial listed fun q isAddon _ =>
      adding_rules.tiers depth q trivial isAddon
  have kept := (adding.adds spared.adds.fresh (List.prefix_refl _)).fresh
  have stack := (adding.unwinds ⟨c, none⟩).packageStack.trans spared.around.stack
  obtain ⟨earlier, addedEarlier, apartEarlier⟩ := spared.adds.records severity
  obtain ⟨own, gained, alike⟩ := examine_gains nested nests deep (around.trans spared.around)
    spared.adds.fresh severity
  obtain ⟨later, addedLater, apartLater⟩ :=
    (spares_after depth apart listedAfter kept).adds.records severity
  rw [stack] at apartLater
  refine ⟨earlier ++ own ++ later, ?_, ?_⟩
  · rw [checkContents_records, split, addedLater, gained, addedEarlier]
    simp only [List.append_assoc]
  · rw [filedUnder_append, filedUnder_append, filedUnder_of_apart apartEarlier,
      filedUnder_of_apart apartLater, List.nil_append, List.append_nil,
      map_unnumbered_filedUnder, alike, map_unnumbered_filedUnder]

end Package

/-- The gate after the first tier, and the one after the second, are closed by what was recorded
before or by the own records. -/
theorem gates_of_sameAround {a b : Bundle} (config : Config) (q : Package) (isAddon : Bool)
    (path : String) (around : SameAround a b) (fresh : ∀ r ∈ b.messages, r.uid < b.next) :
    passesFirst config q isAddon (b.enter path) =
        !(isAddon && (halts config b ||
          halts config (firstTier config q isAddon (a.enter path).blank))) ∧
      halts config (secondTier q (firstTier config q isAddon (b.enter path))) =
        (halts config b ||
          halts config (secondTier q (firstTier config q isAddon (a.enter path).blank))) := by
  have first := firstTier_framed config q isAddon
  refine ⟨?_, (first.comp (secondTier_framed q)).halts (around.enter path) fresh⟩
  rw [passesFirst, first.halts (around.enter path) fresh]
  rfl

/-- Two packages hold the same package in a file that each lists once, and two audits without a
deadline come to it in their third tier. If the gates between tiers are alike then, because an error
was recorded before in both or in none, or the audit is determined to go on, then both audits file
the same records under the package, but for their numbers, and its own tiers run alike. If an error
was recorded before and the audit is not determined, nothing but its opening tiers runs. -/
theorem siblings_act_through_gate_only {config : Config} {p p' q : Package} {path : String}
    {isAddon : Bool} {b b' : Bundle} {t t' : Session} {n depth depth' : Nat}
    (nested : Nested config p path q isAddon) (nested' : Nested config p' path q isAddon)
    (once : p.paths.count path = 1) (once' : p'.paths.count path = 1)
    (nests : NestsWithin config (n + 1) q) (deep : n + 1 ≤ depth) (deep' : n + 1 ≤ depth')
    (around : SameAround b b') (fresh : ∀ r ∈ b.messages, r.uid < b.next)
    (fresh' : ∀ r ∈ b'.messages, r.uid < b'.next)
    (comes : ComesTo (tiers config depth) config p p.paths ⟨b, none⟩ path t)
    (comes' : ComesTo (tiers config depth') config p' p'.paths ⟨b', none⟩ path t') :
    (halts config t.bundle = halts config t'.bundle →
      (∀ s, ∃ new new',
        (checkContents (tiers config depth) config p ⟨b, none⟩).2.bundle.records s =
          b.records s ++ new ∧
        (checkContents (tiers config depth') config p' ⟨b', none⟩).2.bundle.records s =
          b'.records s ++ new' ∧
        (filedUnder (b.packageStack ++ [path]) new).map Record.unnumbered =
          (filedUnder (b.packageStack ++ [path]) new').map Record.unnumbered) ∧
      passesFirst config q isAddon (t.bundle.enter path) =
        passesFirst config q isAddon (t'.bundle.enter path) ∧
      halts config (secondTier q (firstTier config q isAddon (t.bundle.enter path))) =
        halts config (secondTier q (firstTier config q isAddon (t'.bundle.enter path)))) ∧
    (halts config t.bundle = true →
      tiers config depth q isAddon (t.update (·.enter path)) =
        (.ok (), (t.update (·.enter path)).update (opening config q isAddon))) := by
  obtain ⟨-, spared, -⟩ := comes.spares once fresh
  obtain ⟨-, spared', -⟩ := comes'.spares once' fresh'
  refine ⟨fun alike => ⟨fun s => ?_, ?_⟩, fun closed => ?_⟩
  · obtain ⟨new, added, same⟩ := checkContents_filed nested nests deep once (.refl b) fresh comes s
    obtain ⟨new', added', same'⟩ :=
      checkContents_filed nested' nests deep' once' around fresh' comes' s
    rw [around.stack, ← alike] at same'
    exact ⟨new, new', added, added', same.trans same'.symm⟩
  · have gates := gates_of_sameAround config q isAddon path spared.around spared.adds.fresh
    have gates' := gates_of_sameAround config q isAddon path (around.trans spared'.around)
      spared'.adds.fresh
    rw [← alike] at gates'
    exact ⟨gates.1.trans gates'.1.symm, gates.2.trans gates'.2.symm⟩
  · have closed : halts config (t.update (·.enter path)).bundle = true := closed
    have same :=
      tiers_eq_audited config n q isAddon (s := t.update (·.enter path)) spared.adds.fresh
    rw [tiers_of_nestsWithin nests deep, same, audited, if_pos closed, update_apply]

/-! ## A package next to a quiet and next to a loud file -/

/-- A stylesheet that uses a binding, which makes a notice. -/
def boundSheet : Bytes := Text.toBytes "-moz-binding:url(x)"

/-- A script with a line that loads another script from the network, which makes an error. -/
def remoteLoader : Bytes := Text.toBytes "//loadSubScript('http://"

/-- An archive that holds the stylesheet as `c.css`. -/
def boundArchive : Bytes :=
  [80, 75, 3, 4, 20, 0, 0, 0, 0, 0, 0, 0, 33, 0, 131, 245, 108, 165, 19, 0, 0, 0, 19, 0, 0, 0, 5,
    0, 0, 0, 99, 46, 99, 115, 115, 45, 109, 111, 122, 45, 98, 105, 110, 100, 105, 110, 103,
    58, 117, 114, 108, 40, 120, 41, 80, 75, 1, 2, 20, 3, 20, 0, 0, 0, 0, 0, 0, 0, 33, 0, 131, 245,
    108, 165, 19, 0, 0, 0, 19, 0, 0, 0, 5, 0, 0, 0, 0, 0, 0, 0, 0, 0, 0, 0, 128, 1, 0, 0, 0, 0, 99,
    46, 99, 115, 115, 80, 75, 5, 6, 0, 0, 0, 0, 1, 0, 1, 0, 51, 0, 0, 0, 54, 0, 0, 0, 0, 0]

/-- The package in the archive. -/
def boundPackage : Package := Package.ofFiles "b.jar" [("c.css", boundSheet)]

/-- A package with the archive as `b.jar`, after other files. -/
def besideArchive (others : List (String × Bytes)) : Package :=
  Package.ofFiles "a.xpi" (others ++ [("b.jar", boundArchive)])

theorem nested_boundPackage {others : List (String × Bytes)}
    (found : ((besideArchive others).read "b.jar").toOption = some boundArchive) :
    Nested {} (besideArchive others) "b.jar" boundPackage false :=
  ⟨by decide +kernel, by decide +kernel, boundArchive, eq_ok_of_toOption found,
    eq_ok_of_toOption (by decide +kernel)⟩

theorem nestsWithin_boundPackage : NestsWithin {} 1 boundPackage := by
  have listed : boundPackage.paths = ["c.css"] := by decide +kernel
  intro path mem q isAddon nested
  rw [listed, List.mem_singleton] at mem
  subst mem
  exact absurd nested.role (by cases isAddon <;> decide +kernel)

/-- An audit without a deadline comes to the archive after another file. -/
theorem comesTo_archive {others : List (String × Bytes)} {other : String} {data : Bytes}
    (listed : (besideArchive others).paths = [other, "b.jar"])
    (plain : ∀ isAddon, Role.of? other ≠ some (.package isAddon))
    (found : ((besideArchive others).read other).toOption = some data) (b : Bundle) :
    ComesTo (tiers {} 2) {} (besideArchive others) (besideArchive others).paths ⟨b, none⟩ "b.jar"
      (examine (tiers {} 2) {} (besideArchive others) other ⟨b, none⟩).2 := by
  obtain ⟨c, examined⟩ : ∃ c, examine (tiers {} 2) {} (besideArchive others) other ⟨b, none⟩ =
      (.ok (), ⟨c, none⟩) :=
    examine_ok plain rfl ⟨data, eq_ok_of_toOption found⟩ b
  rw [listed, examined]
  exact .later (checkDeadline_of_untimed rfl) examined (.here (checkDeadline_of_untimed rfl))

/-- Next to a stylesheet, which records nothing but a notice, the package has the record that it has
alone. Next to a script with an error, nothing but its opening tiers runs, and the record is
missing. -/
theorem siblings_act_through_gate_only_jar :
    let b := (ofSupported none).setTier 3
    let found (p : Package) := filedUnder ["b.jar"]
      ((checkContents (tiers {} 2) {} p ⟨b, none⟩).2.bundle.records .notice)
    let alone := besideArchive []
    let quiet := besideArchive [("a.css", boundSheet)]
    let loud := besideArchive [("a.js", remoteLoader)]
    (found alone).map (fun r => (r.id, r.file)) =
        [(["testcases_css", "-moz-binding", "used"], ["b.jar", "c.css"])] ∧
      quiet.paths = ["a.css", "b.jar"] ∧
      (found quiet).map Record.unnumbered = (found alone).map Record.unnumbered ∧
      (∃ t, ComesTo (tiers {} 2) {} loud loud.paths ⟨b, none⟩ "b.jar" t ∧
        t.bundle.errors.map (·.file) = [["a.js"]] ∧
        tiers {} 2 boundPackage false (t.update (·.enter "b.jar")) =
          (.ok (), (t.update (·.enter "b.jar")).update (opening {} boundPackage false))) ∧
      found loud = [] := by
  intro b found alone quiet loud
  have fresh : ∀ r ∈ b.messages, r.uid < b.next := fun r mem => absurd mem List.not_mem_nil
  have nested : Nested {} alone "b.jar" boundPackage false :=
    nested_boundPackage (by decide +kernel)
  have nestedQuiet : Nested {} quiet "b.jar" boundPackage false :=
    nested_boundPackage (by decide +kernel)
  have nestedLoud : Nested {} loud "b.jar" boundPackage false :=
    nested_boundPackage (by decide +kernel)
  have listed : alone.paths = ["b.jar"] := by decide +kernel
  have listedQuiet : quiet.paths = ["a.css", "b.jar"] := by decide +kernel
  have listedLoud : loud.paths = ["a.js", "b.jar"] := by decide +kernel
  have once : alone.paths.count "b.jar" = 1 := by rw [listed]; decide
  have onceQuiet : quiet.paths.count "b.jar" = 1 := by rw [listedQuiet]; decide
  have onceLoud : loud.paths.count "b.jar" = 1 := by rw [listedLoud]; decide
  have comes : ComesTo (tiers {} 2) {} alone alone.paths ⟨b, none⟩ "b.jar" ⟨b, none⟩ := by
    rw [listed]
    exact .here (checkDeadline_of_untimed rfl)
  have comesQuiet := comesTo_archive listedQuiet (by decide +kernel)
    (show _ = some boundSheet by decide +kernel) b
  have comesLoud := comesTo_archive listedLoud (by decide +kernel)
    (show _ = some remoteLoader by decide +kernel) b
  have gates : halts {} (examine (tiers {} 2) {} quiet "a.css" ⟨b, none⟩).2.bundle =
      halts {} b := by
    decide +kernel
  have errors : (examine (tiers {} 2) {} loud "a.js" ⟨b, none⟩).2.bundle.errors.map (·.file) =
      [["a.js"]] := by
    decide +kernel
  refine ⟨?_, listedQuiet, ?_, ⟨_, comesLoud, errors, ?_⟩, by decide +kernel⟩
  · obtain ⟨new, added, same⟩ := checkContents_filed nested nestsWithin_boundPackage (by decide)
      once (.refl b) fresh comes .notice
    show (filedUnder ["b.jar"] _).map _ = _
    rw [added]
    refine (Record.map_eq_of_unnumbered (fun _ => rfl) same).trans ?_
    decide +kernel
  · obtain ⟨alike, -⟩ := siblings_act_through_gate_only nestedQuiet nested onceQuiet once
      nestsWithin_boundPackage (by decide) (by decide) (.refl b) fresh fresh comesQuiet comes
    obtain ⟨new, new', added, added', same⟩ := (alike gates).1 .notice
    show (filedUnder ["b.jar"] _).map _ = (filedUnder ["b.jar"] _).map _
    rw [added, added']
    exact same
  · obtain ⟨-, closed⟩ := siblings_act_through_gate_only nestedLoud nested onceLoud once
      nestsWithin_boundPackage (by decide) (by decide) (.refl b) fresh fresh comesLoud comes
    refine closed ?_
    decide +kernel

end AddonAudit.Audit
