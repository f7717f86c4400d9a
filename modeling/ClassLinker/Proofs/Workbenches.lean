import ClassLinker.Proofs.EntryPoints
import ClassLinker.Proofs.Forwarders

/-!
# Workbenches that have been used before

A workbench keeps the declarations at hand that it has been given, by the names that they bear, and
those that it has loaded, by the names that it has asked for. With a loader over which every class
has one declaration, of its own name, this makes no difference (`Loader.IsSteady`):

* `Workbench.Serves.fetch`: what is fetched is the declaration that the loader has for the class,
  whatever has been done at the workbench before;
* `Loader.code?` tells from these declarations alone which code a method gets that has been added to
  a class, and `Workbench.Serves.membersAmong` that this is the code that is made;
* `Loader.isSteady_of_faultless`: sources that never fail are all that this takes, if every class
  has one declaration.

`Workbench.work_transparent`: whatever jobs are done one after the other at a workbench, each gives
the methods that a new workbench gives.
-/

namespace ClassLinker

variable {loader later : Loader} {bench : Workbench} {analysis : Analysis} {cls : ClassRecord}
variable {name : ClassName} {entry : VersionedDecl} {decl : ClassDecl}

/-- A class that has a declaration at some time can always be loaded, with the same declaration,
which bears its name. -/
structure Loader.IsSteady (loader : Loader) : Prop extends loader.IsStable where
  loads : ∀ {name entry later}, loader.Declares name entry → loader.Loads later →
    ∃ other, (later.loadDecl name).1 = .ok other

/-- The class that is to declare the target of what has been added to a class. -/
def Workbench.targetOwner? (analysis : Analysis) (cls : ClassRecord) :
    Forwarder → Option ClassName
  | .bridge interface => some interface
  | .proxy called => declaringClass? analysis cls called

/-! ### Code without a workbench -/

namespace Loader

/-- The declaration that the loader has for a class. -/
def declared? (loader : Loader) (name : ClassName) : Option ClassDecl :=
  (loader.loadDecl name).1.toOption.map VersionedDecl.decl

theorem exists_declares (declared : loader.declared? name = some decl) :
    ∃ entry, loader.Declares name entry ∧ entry.decl = decl := by
  obtain ⟨entry, after, answers, rfl⟩ := exists_of_toOption_map declared
  exact ⟨entry, ⟨loader, .refl, congrArg Prod.fst answers⟩, rfl⟩

theorem IsSteady.declared?_eq (steady : loader.IsSteady) (declares : loader.Declares name entry) :
    loader.declared? name = some entry.decl := by
  obtain ⟨other, answers⟩ := steady.loads declares .refl
  have same := steady.unique ⟨loader, .refl, answers⟩ declares
  rw [declared?, answers, ← same]
  rfl

/-- The public method that the loader has for a class, if there is a declaration of the class. -/
def target? (loader : Loader) (owner : ClassName) (method : MethodName) :
    Option (Option MethodDecl) :=
  (loader.declared? owner).map fun decl => decl.method? .publicInstance method

/-- The code of a method that has been added to a class, if there is a declaration of the class with
its target. -/
def code? (loader : Loader) (analysis : Analysis) (cls : ClassRecord) (name : MethodName) :
    Forwarder → Option (Option MethodDecl)
  | .bridge interface => (loader.target? interface name).map (Option.map (.bridge name interface))
  | .proxy called =>
    match Workbench.declaringClass? analysis cls called with
    | none => some none
    | some owner => (loader.target? owner called).map (Option.map (.proxy name cls.name))

/-- The code of some methods that have been added to a class. -/
def codeAmong? (loader : Loader) (analysis : Analysis) (cls : ClassRecord) :
    List (MethodId × Forwarder) → Option (List MethodDecl)
  | [] => some []
  | (method, forwarder) :: rest =>
    (loader.code? analysis cls method.name forwarder).bind fun made =>
      (loader.codeAmong? analysis cls rest).map (made.toList ++ ·)

/-- There is code for a method if there is a declaration of the class with its target. -/
theorem IsSteady.isSome_code? (steady : loader.IsSteady) {method : MethodName}
    {forwarder : Forwarder}
    (declared : ∀ owner, Workbench.targetOwner? analysis cls forwarder = some owner →
      ∃ entry, loader.Declares owner entry) :
    (loader.code? analysis cls method forwarder).isSome = true := by
  cases forwarder with
  | bridge interface =>
    obtain ⟨entry, declares⟩ := declared interface rfl
    simp [code?, target?, steady.declared?_eq declares]
  | proxy called =>
    cases chosen : Workbench.declaringClass? analysis cls called with
    | none => simp [code?, chosen]
    | some owner =>
      obtain ⟨entry, declares⟩ := declared owner chosen
      simp [code?, chosen, target?, steady.declared?_eq declares]

theorem IsSteady.isSome_codeAmong? (steady : loader.IsSteady)
    {items : List (MethodId × Forwarder)}
    (declared : ∀ item ∈ items, ∀ owner,
      Workbench.targetOwner? analysis cls item.2 = some owner →
        ∃ entry, loader.Declares owner entry) :
    (loader.codeAmong? analysis cls items).isSome = true := by
  induction items with
  | nil => rfl
  | cons first rest ih =>
    obtain ⟨declares, others⟩ := List.forall_mem_cons.1 declared
    have made : (loader.code? analysis cls first.1.name first.2).isSome = true :=
      steady.isSome_code? declares
    simp [codeAmong?, Option.isSome_bind, made, ih others]

end Loader

/-! ### Serving workbenches -/

namespace Workbench

/-- Some work at a workbench gives this value, or fails if there is none, and leaves a workbench
with the declarations of the loader. -/
structure Gives {α : Type} (loader : Loader) (outcome : Except LoadError α × Workbench)
    (value : Option α) : Prop where
  serves : outcome.2.Serves loader
  answer : outcome.1.toOption = value

/-- Work can go on with a value. -/
theorem Gives.map {α β : Type} {outcome : Except LoadError α × Workbench} {value : Option α}
    (gives : Gives loader outcome value) (make : α → β) :
    Gives loader (outcome.1.map make, outcome.2) (value.map make) := by
  refine ⟨gives.serves, ?_⟩
  rw [← gives.answer]
  cases outcome.1 <;> rfl

namespace Serves

theorem note (serves : bench.Serves loader) (event : Event) : (bench.note event).Serves loader :=
  ⟨serves.loads, serves.decls⟩

variable (serves : bench.Serves loader) (steady : loader.IsSteady)

include serves steady

/-- What is fetched is the declaration that the loader has. -/
theorem fetch (name : ClassName) : Gives loader (bench.fetch name) (loader.declared? name) := by
  have yields := yields_fetch serves name
  refine ⟨yields.serves, ?_⟩
  rcases yields.answer with ⟨error, fails, _⟩ | ⟨decl, answers, entry, declares, rfl⟩
  · -- A class with a declaration is at hand or can be loaded, so this one has none.
    rw [fails]
    symm
    refine Option.eq_none_iff_forall_ne_some.2 fun decl declared => ?_
    obtain ⟨entry, declares, rfl⟩ := Loader.exists_declares declared
    obtain ⟨other, answers⟩ := steady.loads declares serves.loads
    unfold Workbench.fetch at fails
    split at fails
    · cases fails
    · generalize bench.loader.loadDecl name = loaded at answers fails
      obtain ⟨_ | _, _⟩ := loaded
      · cases answers
      · cases fails
  · rw [answers, steady.declared?_eq declares]
    rfl

theorem targetIn (owner : ClassName) (method : MethodName) (event : Event) :
    Gives loader (bench.targetIn owner method event) (loader.target? owner method) := by
  have fetched := serves.fetch steady owner
  unfold Workbench.targetIn Loader.target?
  generalize bench.fetch owner = outcome at fetched
  obtain ⟨_ | decl, after⟩ := outcome
  · exact ⟨fetched.serves, by rw [← fetched.answer]; rfl⟩
  · rw [← fetched.answer]
    simp only
    cases found : decl.method? .publicInstance method with
    | some target => exact ⟨fetched.serves, congrArg some found.symm⟩
    | none => exact ⟨note fetched.serves event, congrArg some found.symm⟩

/-- A method gets the code that the declarations of the loader tell. -/
theorem member (method : MethodId) (forwarder : Forwarder) :
    Gives loader (bench.member analysis cls method forwarder)
      (loader.code? analysis cls method.name forwarder) := by
  cases forwarder with
  | bridge interface => exact (serves.targetIn steady interface method.name _).map _
  | proxy called =>
    simp only [Workbench.member, Loader.code?]
    cases declaringClass? analysis cls called with
    | none => exact ⟨note serves _, rfl⟩
    | some owner => exact (serves.targetIn steady owner called _).map _

/-- So do some of them in turn. -/
theorem membersAmong (items : List (MethodId × Forwarder)) :
    Gives loader (bench.membersAmong analysis cls items)
      (loader.codeAmong? analysis cls items) := by
  induction items generalizing bench with
  | nil => exact ⟨serves, rfl⟩
  | cons first rest ih =>
    have made : Gives loader (bench.member analysis cls first.1 first.2) _ :=
      serves.member steady first.1 first.2
    unfold Workbench.membersAmong Loader.codeAmong?
    generalize bench.member analysis cls first.1 first.2 = outcome at made
    obtain ⟨_ | code, after⟩ := outcome
    · exact ⟨made.serves, by rw [← made.answer]; rfl⟩
    · rw [← made.answer]
      exact (ih made.serves).map _

end Serves

/-! ### Jobs -/

/-- What can be done at a workbench: to give it a declaration, or to have the methods made that have
been added to a class. -/
inductive Job where
  | give (decl : ClassDecl)
  | make (cls : ClassRecord)

/-- The class whose methods are made. -/
def Job.made? : Job → Option ClassRecord
  | .give _ => none
  | .make cls => some cls

/-- Does some jobs in turn, with what has been made in each. -/
def work (bench : Workbench) (analysis : Analysis) :
    List Job → List (Except LoadError (List MethodDecl)) × Workbench
  | [] => ([], bench)
  | .give decl :: rest => (bench.lay decl).work analysis rest
  | .make cls :: rest =>
    let (made, bench) := bench.members analysis cls
    let (later, bench) := bench.work analysis rest
    (made :: later, bench)

/-- What is made at a serving workbench is told by the loader, job by job. -/
theorem Serves.work (serves : bench.Serves loader) (steady : loader.IsSteady) {jobs : List Job}
    (given : ∀ decl, .give decl ∈ jobs → ∃ name entry, loader.Declares name entry ∧
      entry.decl = decl) :
    (bench.work analysis jobs).1.map Except.toOption =
      (jobs.filterMap Job.made?).map fun cls => loader.codeAmong? analysis cls cls.forwarders := by
  induction jobs generalizing bench with
  | nil => rfl
  | cons first rest ih =>
    have given_rest := fun decl mem => given decl (List.mem_cons_of_mem _ mem)
    cases first with
    | give decl =>
      obtain ⟨name, entry, declares, rfl⟩ := given decl List.mem_cons_self
      obtain rfl := steady.named declares
      exact ih (serves.lay declares) given_rest
    | make cls =>
      have made : Gives loader (bench.members analysis cls) _ :=
        serves.membersAmong steady cls.forwarders
      exact congrArg₂ List.cons made.answer (ih made.serves given_rest)

/-- Nothing of what has been done at a workbench before matters: what is made of a class is what a
new workbench makes of it, at any time. It makes something if there are declarations of the classes
that have the targets. -/
theorem work_transparent (steady : loader.IsSteady) {jobs : List Job}
    (given : ∀ decl, .give decl ∈ jobs → ∃ name entry, loader.Declares name entry ∧
      entry.decl = decl) (loads : loader.Loads later) :
    (work { loader } analysis jobs).1.map Except.toOption =
        (jobs.filterMap Job.made?).map
          (fun cls => (members { loader := later } analysis cls).1.toOption) ∧
      ∀ cls : ClassRecord, (∀ item ∈ cls.forwarders, ∀ owner,
        targetOwner? analysis cls item.2 = some owner → ∃ entry, loader.Declares owner entry) →
          ∃ made, (members { loader := later } analysis cls).1 = .ok made := by
  have fresh : ∀ cls : ClassRecord, (members { loader := later } analysis cls).1.toOption =
      loader.codeAmong? analysis cls cls.forwarders := fun cls =>
    ((serves_of_loads loads).membersAmong steady cls.forwarders).answer
  refine ⟨?_, fun cls declared => ?_⟩
  · simp only [fresh]
    exact (serves_of_loads .refl).work steady given
  · have isSome := steady.isSome_codeAmong? declared
    rw [← fresh cls] at isSome
    cases made : (members { loader := later } analysis cls).1 with
    | error => rw [made] at isSome; cases isSome
    | ok methods => exact ⟨methods, rfl⟩

end Workbench

/-! ### Loaders that never fail -/

/-- A request leaves a source without faults as it is. -/
theorem Source.request_of_faultless {α : Type} {source : Source} (faultless : source.faults = [])
    (kind : RequestKind) (name : ClassName) (known : Except LoadError α) :
    source.request kind name known = (known, source) := by
  rw [request, faultless, Fault.take?]

/-- A search leaves all sources as they are if asking does. -/
theorem Chain.sources_search {α : Type} {kind : RequestKind}
    {ask : Source → Except LoadError (Option α) × Source} {index : Nat} {sources : List Source}
    (kept : ∀ source ∈ sources, (ask source).2 = source) :
    (search kind name ask index sources).sources = sources := by
  have same : (search kind name ask index sources).sources.map id = sources.map id :=
    map_search kept
  simpa using same

namespace Loader

/-- So loading leaves them as they are. -/
theorem Loads.sources_eq (faultless : ∀ source ∈ loader.sources, source.faults = [])
    (loads : loader.Loads later) : later.sources = loader.sources := by
  induction loads with
  | refl => rfl
  | @tail middle _ _ load ih =>
    rw [← ih] at faultless ⊢
    have kept : ∀ {α : Type} (kind : RequestKind) (name : ClassName) (known : Except LoadError α),
        ∀ source ∈ middle.sources, (source.request kind name known).2 = source :=
      fun kind name known source mem =>
        congrArg Prod.snd (Source.request_of_faultless (faultless source mem) kind name known)
    cases load with
    | summary name =>
      cases cached : middle.cached? name with
      | some known => rw [loadSummary_of_cached cached]
      | none =>
        rw [loadSummary_of_new cached]
        exact Chain.sources_search fun source => kept .summary name _ source
    | decl name =>
      have answered : ∀ source ∈ middle.sources, (source.requestDecl name).2 = source :=
        fun source => kept .decl name _ source
      exact Chain.sources_search answered

/-- A loader whose sources never fail is steady if every class has one declaration. -/
theorem isSteady_of_faultless (stable : loader.IsStable)
    (faultless : ∀ source ∈ loader.sources, source.faults = []) : loader.IsSteady where
  toIsStable := stable
  loads {name entry later} declares loads := by
    obtain ⟨middle, before, answers⟩ := declares
    refine ⟨entry, ?_⟩
    simpa only [loadDecl, loads.sources_eq faultless, before.sources_eq faultless] using answers

theorem isSteady_ofDecls (decls : List ClassDecl) : (ofDecls decls).IsSteady := by
  refine isSteady_of_faultless (isStable_ofDecls decls) fun source mem => ?_
  obtain rfl := List.mem_singleton.1 mem
  exact tell_foldl_insert (fun _ _ => rfl) decls {}

end Loader

/-- The methods of a class are made two times, and in between the workbench is given the
declaration of the interface that both of them forward to. -/
theorem Workbench.work_transparent_forwarding :
    ∃ analysis after cls entry made, analyze true (.callStatic "test" ⟨"A"⟩ ⟨"main__V"⟩)
        (Loader.ofDecls forwarding) = (.ok analysis, after) ∧
      analysis.class? ⟨"A"⟩ = some cls ∧
      (Loader.ofDecls forwarding).Declares ⟨"I"⟩ entry ∧
      (work { loader := Loader.ofDecls forwarding } analysis
        [.make cls, .give entry.decl, .make cls]).1.map Except.toOption =
          [some made, some made] := by
  have told : (analyze true (.callStatic "test" ⟨"A"⟩ ⟨"main__V"⟩)
      (Loader.ofDecls forwarding)).1.toOption.map (fun analysis =>
        (analysis.class? ⟨"A"⟩).map fun cls =>
          cls.forwarders.map fun item => targetOwner? analysis cls item.2) =
      some (some [some ⟨"I"⟩, some ⟨"I"⟩]) := by
    decide +kernel
  have declared : ((Loader.ofDecls forwarding).loadDecl ⟨"I"⟩).1.toOption.isSome = true := by
    decide +kernel
  obtain ⟨analysis, after, ends, told⟩ := exists_of_toOption_map told
  obtain ⟨cls, found, owners⟩ := Option.map_eq_some_iff.1 told
  generalize loads : ((Loader.ofDecls forwarding).loadDecl ⟨"I"⟩).1 = answer at declared
  cases answer with
  | error => cases declared
  | ok entry =>
    have declares : (Loader.ofDecls forwarding).Declares ⟨"I"⟩ entry := ⟨_, .refl, loads⟩
    have same := @work_transparent _ (Loader.ofDecls forwarding) analysis
      (Loader.isSteady_ofDecls forwarding) [.make cls, .give entry.decl, .make cls]
      (fun decl mem => ⟨⟨"I"⟩, entry, declares, by simp_all⟩) .refl
    obtain ⟨alike, makes⟩ := same
    obtain ⟨made, answers⟩ := makes cls fun item mem owner owned => by
      have mem := List.mem_map_of_mem (f := fun item => targetOwner? analysis cls item.2) mem
      rw [owners, owned] at mem
      obtain rfl : owner = ⟨"I"⟩ := by simpa using mem
      exact ⟨entry, declares⟩
    refine ⟨analysis, after, cls, entry, made, ends, found, declares, alike.trans ?_⟩
    rw [show [Job.make cls, .give entry.decl, .make cls].filterMap Job.made? = [cls, cls] from rfl]
    simp only [List.map_cons, List.map_nil, answers]
    rfl

end ClassLinker
