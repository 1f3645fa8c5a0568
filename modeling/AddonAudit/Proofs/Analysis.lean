import AddonAudit.Check.Markup
import AddonAudit.Proofs.Checks
import AddonAudit.Proofs.Engine.AppendOnly
import AddonAudit.Proofs.Engine.Kept

/-!
# Analyses of files

The analysis of a script reports on its lines and on what cannot be read, then walks over its tree.
The analysis of a document reports on addresses and analyses the scripts in it, up to the first
fault. So what reports about the file and walks over trees keep of two sessions, analyses keep. With
one session twice this is what an analysis keeps of its own session.
-/

namespace AddonAudit

open Bundle Script

/-- An analysis of a file: of a script, or of a document with scripts. -/
inductive IsAnalysis (path : String) :
    (Options → Session → Except Fault Unit × Session) → Prop where
  | script (source : List Char) : IsAnalysis path fun options => Script.analyse path source options
  | markup (source : List Char) : IsAnalysis path fun options => Markup.check path source options

/-- How two analyses end alike: both well or with the same fault, in related sessions. Some faults
may be ruled out. -/
inductive EndAlike (R : Session → Session → Prop) (Faults : Fault → Prop) :
    Except Fault Unit × Session → Except Fault Unit × Session → Prop where
  | well {s t : Session} : R s t → EndAlike R Faults (.ok (), s) (.ok (), t)
  | fault {s t : Session} (e : Fault) : R s t → Faults e →
      EndAlike R Faults (.error e, s) (.error e, t)

/-- From related sessions a step ends alike. -/
def Tracks (R : Session → Session → Prop) (Faults : Fault → Prop)
    (x : Session → Except Fault Unit × Session) : Prop :=
  ∀ ⦃s t⦄, R s t → EndAlike R Faults (x s) (x t)

/-- A relation between sessions that the analyses of a file keep. -/
structure Analysed (file : String) (R : Session → Session → Prop) (Faults : Fault → Prop) :
    Prop where
  report : ∀ {f s t}, IsRun (Step.IsAbout file) f → R s t → R (s.update f) (t.update f)
  walk : ∀ {env} tree, env.file = file → Tracks R Faults (walk env tree)

variable {file : String} {R : Session → Session → Prop} {Faults : Fault → Prop}

theorem EndAlike.self {a : Except Fault Unit × Session} (related : R a.2 a.2)
    (may : ∀ e, a.1 = .error e → Faults e) : EndAlike R Faults a a := by
  obtain ⟨e | _, s⟩ := a
  · exact .fault e related (may e rfl)
  · exact .well related

/-- Checks of matches go on together up to the first fault. -/
theorem Tracks.checkEach {step : Pattern.Match → Session → Except Fault Unit × Session}
    (h : ∀ m, Tracks R Faults (step m)) (list : List Pattern.Match) :
    Tracks R Faults (Markup.checkEach step list) := by
  induction list with
  | nil => exact fun _ _ related => .well related
  | cons m rest ih =>
      intro s t related
      rw [Markup.checkEach, Markup.checkEach]
      have first := h m related
      generalize step m s = a, step m t = b at first
      cases first with
      | well related => exact ih related
      | fault e related may => exact .fault e related may

namespace Analysed

variable (A : Analysed file R Faults)

include A

theorem analyse (source : List Char) (options : Options) :
    Tracks R Faults (Script.analyse file source options) := by
  intro s t related
  refine A.walk _ rfl (A.report (isRun_noteError ..) ?_)
  split
  · exact related
  · exact A.report (Battery.isRun_checkScript ..) related

variable {d : Markup.Document} (here : d.file = file)

include here

theorem checkCode (offset : Nat) (code : List Char) :
    Tracks R Faults (Markup.checkCode d offset code) := by
  intro s t related
  subst here
  unfold Markup.checkCode
  split
  · exact .well related
  · exact A.analyse _ _ related

theorem checkScript (m : Pattern.Match) : Tracks R Faults (Markup.checkScript d m) := by
  intro s t related
  unfold Markup.checkScript Markup.checkSource
  simp only
  split
  · apply EndAlike.well
    split
    · exact A.report (isRun_addAbout .warning (congrArg some here)) related
    · exact related
  · split
    · exact .well related
    · exact A.checkCode here _ _ related

theorem checkEvent (scripts : List Pattern.Match) (m : Pattern.Match) :
    Tracks R Faults (Markup.checkEvent d scripts m) := by
  intro s t related
  unfold Markup.checkEvent
  split
  · exact .well related
  · split
    · exact .well related
    · exact A.checkCode here _ _ related

omit here in
theorem check (source : List Char) (options : Options) :
    Tracks R Faults (Markup.check file source options) := by
  intro s t related
  let d : Markup.Document := ⟨file, .ofChars source, options⟩
  have scripts :=
    Tracks.checkEach (A.checkScript (d := d) rfl) (Markup.scriptTag.findAll source) related
  have events := Tracks.checkEach (A.checkEvent (d := d) rfl (Markup.scriptTag.findAll source))
    (Markup.eventAttribute.findAll source)
  rw [Markup.check, Markup.check]
  generalize Markup.checkEach (Markup.checkScript d) (Markup.scriptTag.findAll source) s = a,
    Markup.checkEach (Markup.checkScript d) (Markup.scriptTag.findAll source) t = b at scripts
  cases scripts with
  | well related => exact events related
  | fault e related may => exact .fault e related may

end Analysed

variable {check : Options → Session → Except Fault Unit × Session}

/-- An analysis keeps what its parts keep. -/
theorem IsAnalysis.tracks (h : IsAnalysis file check) (A : Analysed file R Faults)
    (options : Options) : Tracks R Faults (check options) := by
  cases h with
  | script source => exact A.analyse source options
  | markup source => exact A.check source options

/-! ## The setting -/

/-- Nothing but records has changed since a bundle, as an invariant of runs of the engine. -/
def settled (b : Bundle) : Invariant where
  Inv s := b.SameSetting s.bundle
  Step _ _ := True
  Val _ _ := True
  refl _ := trivial
  trans _ _ := trivial
  mono value _ := value

theorem settled_of_eq {b : Bundle} {s t : State} (same : t.bundle = s.bundle)
    (h : b.SameSetting s.bundle) : b.SameSetting t.bundle := same ▸ h

theorem settled_lawful (b : Bundle) : (settled b).Lawful where
  plain _ _ := trivial
  find _ _ := trivial
  receiver _ := trivial
  kept _ _ := trivial
  property _ _ _ _ := trivial
  infer _ inv _ _ := ⟨inv, trivial⟩
  storeGlobal _ inv _ _ := ⟨inv, trivial⟩
  declare _ _ inv _ _ := ⟨inv, trivial⟩
  overwrite inv _ found := ⟨settled_of_eq (overwrite?_bundle found) inv, trivial⟩
  setProperty _ inv _ _ _ := ⟨inv, trivial⟩
  newObject inv := ⟨⟨inv, trivial⟩, fun _ => trivial⟩
  newArray inv _ := ⟨⟨inv, trivial⟩, fun _ => trivial⟩
  record severity f inv _ := ⟨inv.trans (push_sameSetting severity f _), trivial⟩
  carry _ _ _ _ _ := trivial
  drop inv _ _ _ := ⟨inv.trans (drop_sameSetting _ _), trivial⟩
  tick _ inv _ := ⟨inv, trivial⟩
  keep _ inv _ := ⟨inv, trivial⟩
  faults _ := trivial
  enter b inv := settled_of_eq (enter_bundle b _) inv
  leave b _ inv _ := ⟨settled_of_eq (leave_bundle b _) inv, trivial⟩
  outside _ value := value

theorem Bundle.IsRun.sameSetting {f : Bundle → Bundle} (h : IsRun (Step.IsAbout file) f)
    (b : Bundle) : b.SameSetting (f b) := by
  refine h.induct (R := b.SameSetting) ?_ (.refl b)
  rintro _ c ⟨s, f, -⟩ same
  exact same.trans (push_sameSetting s f c)

theorem analysed_sameSetting (b : Bundle) :
    Analysed file (fun s t => s = t ∧ b.SameSetting s.bundle) fun _ => True where
  report := by
    rintro f s _ run ⟨rfl, same⟩
    exact ⟨rfl, same.trans (run.sameSetting _)⟩
  walk := by
    rintro env tree - s _ ⟨rfl, same⟩
    let start := Engine.initial env.registry tree s.clock s.bundle
    exact .self ⟨rfl, ((settled_lawful b).run env (s := start) same tree).inv⟩ fun _ _ => trivial

/-- An analysis changes nothing in a bundle but its records, however it ends. -/
theorem IsAnalysis.sameSetting (h : IsAnalysis file check) (options : Options) (s : Session) :
    s.bundle.SameSetting (check options s).2.bundle := by
  have ends := h.tracks (analysed_sameSetting s.bundle) options ⟨rfl, .refl _⟩
  generalize check options s = a at ends
  cases ends with
  | well related => exact related.2
  | fault e related => exact related.2

/-! ## No deadline -/

theorem untimed_walking : (holding (·.clock = none) (· ≠ .timeout)).Walking fun _ => True where
  toSteady :=
    holding_steady (fun untimed clock _ => clock.trans untimed) fun _ untimed clock => clock untimed
  keep untimed _ _ := ⟨untimed, trivial⟩
  faults _ other := other
  late := by
    intro s untimed late
    rw [show s.clock = none from untimed] at late
    exact nomatch late

theorem analysed_untimed :
    Analysed file (fun s t => s = t ∧ s.clock = none) (· ≠ .timeout) where
  report := by
    rintro f s _ - ⟨rfl, untimed⟩
    exact ⟨rfl, untimed⟩
  walk := by
    rintro env tree - s _ ⟨rfl, untimed⟩
    let start := Engine.initial env.registry tree s.clock s.bundle
    obtain ⟨leads, faults⟩ := untimed_walking.run env (s := start) untimed tree
    exact .self ⟨rfl, leads.inv⟩ faults

/-- Without a deadline an analysis does not run out of time, and nothing sets a deadline. -/
theorem IsAnalysis.untimed (h : IsAnalysis file check) (options : Options) {s : Session}
    (untimed : s.clock = none) :
    (check options s).1 ≠ .error .timeout ∧ (check options s).2.clock = none := by
  have ends := h.tracks analysed_untimed options ⟨rfl, untimed⟩
  generalize check options s = a at ends
  cases ends with
  | well related => exact ⟨nofun, related.2⟩
  | fault e related may =>
      refine ⟨fun same => ?_, related.2⟩
      cases same
      exact may rfl

end AddonAudit
