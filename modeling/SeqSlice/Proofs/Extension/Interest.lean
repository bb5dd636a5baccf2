import SeqSlice.Extension.Interest
import SeqSlice.Proofs.Tag.Cycle

/-! Answers about the interest of methods, and what they should be. A yes is always
right. A no was found while some methods were still being asked about and counted as of
no interest; if one of these turns out to be of interest, the no is kept all the same.
That takes a cycle of callers, and the tags of recursion do not cover every such cycle. -/

set_option autoImplicit false
namespace SeqSlice
namespace Interest

section
variable (graph : Supergraph) (tags : TagTable) (config : Config)

/-- Entered through a dispatching call that may go to several methods, or from a branch. -/
def Direct (method : MethodId) : Prop :=
  tags.methodHas method .interCycle = false ∧ ∃ caller ∈ graph.callers method,
    isPolymorphic graph config caller = true ∨
      graph.isCall caller = true ∧ tags.pointHas caller .branch = true

def Asks (method other : MethodId) : Prop :=
  tags.methodHas method .interCycle = false ∧ ∃ caller ∈ graph.callers method,
    graph.isCall caller = true ∧ graph.methodOf caller = other

/-- The least set of methods that holds those of interest by themselves, and with the
method of a caller what is called from there. -/
inductive Interesting : MethodId → Prop where
  | direct {method : MethodId} : Direct graph tags config method → Interesting method
  | caller {method other : MethodId} : Asks graph tags method other → Interesting other →
      Interesting method

def Circular (method : MethodId) : Prop :=
  ∃ other, Relation.ReflTransGen (Asks graph tags) method other ∧
    Relation.TransGen (Asks graph tags) other other

def after (queries : List MethodId) : Answers :=
  queries.foldl (fun answers method => (ofMethod graph tags config answers method).2) []

def answer (queries : List MethodId) (method : MethodId) : Bool :=
  (ofMethod graph tags config (after graph tags config queries) method).1

/-- All calls among the callers of a method are made by methods that the entry reaches,
and they enter the method. -/
def Traced (method : MethodId) : Prop :=
  ∀ caller ∈ graph.callers method, graph.isCall caller = true →
    graph.methodOf caller ∈ graph.callGraph.nodes ∧
      graph.callSource.Makes (graph.methodOf caller) caller method

def unanswered (answers : Answers) : Nat :=
  graph.program.methodIds.countP fun method => (answers.lookup method).isNone

end

theorem lookup_cons {answers : Answers} {method other : MethodId} {result : Bool} :
    List.lookup other ((method, result) :: answers) =
      if other = method then some result else answers.lookup other := by
  rw [List.lookup_cons]
  cases same : other == method with
  | true => rw [if_pos (beq_iff_eq.mp same)]
  | false => rw [if_neg (beq_eq_false_iff_ne.mp same)]

variable {graph : Supergraph} {tags : TagTable} {config : Config} {answers later : Answers}
  {method other : MethodId} {pending : List MethodId} {result : Bool} {depth : Nat}

theorem asks_known (asks : Asks graph tags method other) : other ∈ graph.program.methodIds := by
  obtain ⟨_, caller, _, _, rfl⟩ := asks
  exact Supergraph.methodOf_known caller

/-! ## More answers -/

/-- Answers that were kept stay. New ones are about methods of the set, and one of them
is yes only if the result is. -/
structure Grown (within : MethodId → Prop) (result : Bool) (answers later : Answers) : Prop where
  kept : ∀ {method known}, answers.lookup method = some known → later.lookup method = some known
  new : ∀ {method known}, later.lookup method = some known →
    answers.lookup method = some known ∨ within method ∧ (known = true → result = true)

namespace Grown

variable {within larger : MethodId → Prop}

theorem refl : Grown within result answers answers := ⟨id, .inl⟩

theorem trans {last : Answers} (first : Grown within false answers later)
    (second : Grown within result later last) : Grown within result answers last where
  kept found := second.kept (first.kept found)
  new found := by
    rcases second.new found with earlier | now
    · exact (first.new earlier).imp_right fun ⟨inside, never⟩ =>
        ⟨inside, fun yes => absurd (never yes) Bool.false_ne_true⟩
    · exact .inr now

theorem mono (grown : Grown within result answers later)
    (subset : ∀ method, within method → larger method) : Grown larger result answers later where
  kept := grown.kept
  new found := (grown.new found).imp_right (And.imp_left (subset _))

theorem add {known : Bool} (grown : Grown within result answers later)
    (fresh : answers.lookup method = none) (inside : within method)
    (yes : known = true → result = true) : Grown within result answers ((method, known) :: later) where
  kept {other _} found := by
    have different : other ≠ method := fun same => by rw [same, fresh] at found; cases found
    rw [lookup_cons, if_neg different]
    exact grown.kept found
  new found := by
    rw [lookup_cons] at found
    split at found
    · next same => exact .inr ⟨same ▸ inside, fun isYes => yes ((Option.some.inj found).trans isYes)⟩
    · exact grown.new found

theorem unanswered_le (grown : Grown within result answers later) :
    unanswered graph later ≤ unanswered graph answers := by
  refine List.countP_mono_left fun method _ none => ?_
  cases found : answers.lookup method with
  | none => rfl
  | some known => rw [grown.kept found] at none; cases none

end Grown

theorem unanswered_cons_lt (known : method ∈ graph.program.methodIds)
    (fresh : answers.lookup method = none) :
    unanswered graph ((method, result) :: answers) < unanswered graph answers := by
  refine CallSource.countP_lt_countP (fun other _ => ?_) known (by rw [fresh]; rfl) (by simp)
  rw [lookup_cons]
  split <;> simp

/-! ## What the answers rest on -/

/-- Nothing speaks for the method, and all questions that it leads to were answered no. -/
def Refuted (graph : Supergraph) (tags : TagTable) (config : Config) (answers : Answers)
    (method : MethodId) : Prop :=
  ¬ Direct graph tags config method ∧
    ∀ other, Asks graph tags method other → answers.lookup other = some false

theorem Refuted.mono (refuted : Refuted graph tags config answers method)
    (kept : ∀ other, answers.lookup other = some false → later.lookup other = some false) :
    Refuted graph tags config later method :=
  ⟨refuted.1, fun other asks => kept other (refuted.2 other asks)⟩

/-- A yes is right. A no, unless its method is still being asked about, was refuted, or
it is about a circular question and some answer has been yes since. -/
structure Supported (graph : Supergraph) (tags : TagTable) (config : Config)
    (pending : List MethodId) (answers : Answers) : Prop where
  sound : ∀ {method}, answers.lookup method = some true → Interesting graph tags config method
  refuted : ∀ {method}, method ∉ pending → answers.lookup method = some false →
    Refuted graph tags config answers method ∨
      Circular graph tags method ∧ ∃ other, answers.lookup other = some true

namespace Supported

theorem congr (supported : Supported graph tags config pending answers)
    (same : ∀ method, later.lookup method = answers.lookup method) :
    Supported graph tags config pending later where
  sound found := supported.sound (same _ ▸ found)
  refuted settled found := by
    refine (supported.refuted settled (same _ ▸ found)).imp (fun refuted => ?_) fun circular => ?_
    · exact refuted.mono fun other found => (same other).trans found
    · exact circular.imp_right fun ⟨other, yes⟩ => ⟨other, (same other).trans yes⟩

theorem begin (supported : Supported graph tags config pending answers)
    (fresh : answers.lookup method = none) :
    Supported graph tags config (method :: pending) ((method, false) :: answers) where
  sound {other} found := by
    rw [lookup_cons] at found
    split at found
    · cases found
    · exact supported.sound found
  refuted {other} settled found := by
    rw [List.mem_cons, not_or] at settled
    rw [lookup_cons, if_neg settled.1] at found
    refine (supported.refuted settled.2 found).imp (fun refuted => ?_) fun circular => ?_
    · refine refuted.mono fun other found => ?_
      rw [lookup_cons]
      split
      · rfl
      · exact found
    · obtain ⟨circular, other, yes⟩ := circular
      have different : other ≠ method := fun same => by rw [same, fresh] at yes; cases yes
      exact ⟨circular, other, by rwa [lookup_cons, if_neg different]⟩

theorem refute (supported : Supported graph tags config (method :: pending) later)
    (refuted : Refuted graph tags config later method) :
    Supported graph tags config pending later where
  sound := supported.sound
  refuted {other} settled found := by
    by_cases same : other = method
    · subst same
      exact .inl refuted
    · exact supported.refuted (by simp [same, settled]) found

/-- Whatever relied on a no that turns into a yes was asked about since then, so it is
on a cycle with the method. -/
theorem accept (before : Supported graph tags config pending answers)
    (fresh : answers.lookup method = none)
    (grown : Grown (Relation.TransGen (Asks graph tags) method) result
      ((method, false) :: answers) later)
    (supported : Supported graph tags config (method :: pending) later)
    (right : Interesting graph tags config method) :
    Supported graph tags config pending ((method, true) :: later) where
  sound {other} found := by
    rw [lookup_cons] at found
    split at found
    · next same =>
        subst same
        exact right
    · exact supported.sound found
  refuted {other} settled found := by
    have yes : List.lookup method ((method, true) :: later) = some true := by simp
    rw [lookup_cons] at found
    split at found
    · cases found
    · next different =>
        rcases supported.refuted (by simp [different, settled]) found with refuted | ⟨circular, _⟩
        · by_cases relied : Asks graph tags other method
          · refine .inr ⟨?_, method, yes⟩
            rcases grown.new found with earlier | ⟨above, _⟩
            · -- An older no would have asked about this method before.
              rw [lookup_cons, if_neg different] at earlier
              rcases before.refuted settled earlier with old | ⟨circular, _⟩
              · cases fresh.symm.trans (old.2 method relied)
              · exact circular
            · exact ⟨other, .refl, .head relied above⟩
          · refine .inl ⟨refuted.1, fun asked asks => ?_⟩
            have apart : asked ≠ method := fun same => relied (same ▸ asks)
            rw [lookup_cons, if_neg apart]
            exact refuted.2 asked asks
        · exact .inr ⟨circular, method, yes⟩

end Supported

/-! ## One question -/

structure Answered (graph : Supergraph) (tags : TagTable) (config : Config)
    (pending : List MethodId) (answers : Answers) (method : MethodId) (outcome : Bool × Answers) :
    Prop where
  grown : Grown (Relation.ReflTransGen (Asks graph tags) method) outcome.1 answers outcome.2
  found : outcome.2.lookup method = some outcome.1
  supported : Supported graph tags config pending outcome.2

structure CallersAnswered (graph : Supergraph) (tags : TagTable) (config : Config)
    (pending : List MethodId) (answers : Answers) (method : MethodId) (callers : List PointId)
    (outcome : Bool × Answers) : Prop where
  grown : Grown (Relation.TransGen (Asks graph tags) method) outcome.1 answers outcome.2
  supported : Supported graph tags config pending outcome.2
  yes : outcome.1 = true → Interesting graph tags config method
  no : outcome.1 = false → ∀ caller ∈ callers, graph.isCall caller = true →
    tags.pointHas caller .branch = false ∧
      outcome.2.lookup (graph.methodOf caller) = some false

theorem anyCaller_answered {ask : Answers → MethodId → Bool × Answers} {callers : List PointId}
    (untagged : tags.methodHas method .interCycle = false)
    (listed : ∀ caller ∈ callers, caller ∈ graph.callers method)
    (asked : ∀ answers other, other ∈ graph.program.methodIds → unanswered graph answers < depth →
      Supported graph tags config pending answers →
      Answered graph tags config pending answers other (ask answers other))
    (room : unanswered graph answers < depth)
    (supported : Supported graph tags config pending answers) :
    CallersAnswered graph tags config pending answers method callers
      (anyCaller graph tags ask answers callers) := by
  induction callers generalizing answers with
  | nil => exact ⟨.refl, supported, by simp [anyCaller], by simp⟩
  | cons caller rest ih =>
      obtain ⟨isCaller, others⟩ := List.forall_mem_cons.mp listed
      unfold anyCaller
      split
      · next isCall =>
          split
          · next branch =>
              exact ⟨.refl, supported, fun _ => .direct ⟨untagged, caller, isCaller, .inr ⟨isCall, branch⟩⟩,
                by simp⟩
          · next plain =>
              -- Answers of this caller are about what the method asks, and no more room is needed
              -- later.
              have asks : Asks graph tags method (graph.methodOf caller) :=
                ⟨untagged, caller, isCaller, isCall, rfl⟩
              have here := asked answers _ (asks_known asks) room supported
              have grown := here.grown.mono fun other reached =>
                (Relation.TransGen.head' asks reached : Relation.TransGen (Asks graph tags) method other)
              split
              · next later outcome =>
                  rw [outcome] at here grown
                  exact ⟨grown, here.supported,
                    fun _ => .caller asks (here.supported.sound here.found), by simp⟩
              · next later outcome =>
                  rw [outcome] at here grown
                  have more := ih others (Nat.lt_of_le_of_lt grown.unanswered_le room) here.supported
                  refine ⟨grown.trans more.grown, more.supported, more.yes, fun no => ?_⟩
                  refine List.forall_mem_cons.mpr ⟨fun _ => ⟨by simpa using plain, ?_⟩, more.no no⟩
                  exact more.grown.kept here.found
      · next notCall =>
          have more := ih others room supported
          refine ⟨more.grown, more.supported, more.yes, fun no => ?_⟩
          exact List.forall_mem_cons.mpr ⟨fun isCall => absurd isCall notCall, more.no no⟩

section
variable (supported : Supported graph tags config pending answers)
  (fresh : answers.lookup method = none)
include supported fresh

theorem answered_of_tagged (tagged : tags.methodHas method .interCycle = true) :
    Answered graph tags config pending answers method (false, (method, false) :: answers) := by
  have never (untagged : tags.methodHas method .interCycle = false) : False :=
    Bool.false_ne_true (untagged.symm.trans tagged)
  refine ⟨.add .refl fresh .refl id, by simp, (supported.begin fresh).refute ⟨fun direct => ?_, ?_⟩⟩
  · exact never direct.1
  · exact fun other asks => (never asks.1).elim

theorem answered_of_polymorphic (untagged : tags.methodHas method .interCycle = false)
    (polymorphic : (graph.callers method).any (isPolymorphic graph config) = true) :
    Answered graph tags config pending answers method
      (true, (method, true) :: (method, false) :: answers) := by
  obtain ⟨caller, isCaller, several⟩ := List.any_eq_true.mp polymorphic
  have taken : Grown (Relation.ReflTransGen (Asks graph tags) method) true answers
    ((method, false) :: answers) := .add .refl fresh .refl (by simp)
  have nothing : Grown (Relation.TransGen (Asks graph tags) method) true
    ((method, false) :: answers) ((method, false) :: answers) := .refl
  refine ⟨taken.add fresh .refl id, by simp, ?_⟩
  exact supported.accept fresh nothing (supported.begin fresh)
    (.direct ⟨untagged, caller, isCaller, .inl several⟩)

theorem answered_of_callers {outcome : Bool × Answers}
    (monomorphic : ¬ (graph.callers method).any (isPolymorphic graph config) = true)
    (callers : CallersAnswered graph tags config (method :: pending) ((method, false) :: answers)
      method (graph.callers method) outcome) :
    Answered graph tags config pending answers method
      (outcome.1, (method, outcome.1) :: outcome.2) := by
  have taken : Grown (Relation.ReflTransGen (Asks graph tags) method) false answers
    ((method, false) :: answers) := .add .refl fresh .refl id
  have all := taken.trans (callers.grown.mono fun _ above => above.to_reflTransGen)
  refine ⟨all.add fresh .refl id, by simp, ?_⟩
  cases result : outcome.1 with
  | true => exact supported.accept fresh callers.grown callers.supported (callers.yes result)
  | false =>
      have stays : outcome.2.lookup method = some false := callers.grown.kept (by simp)
      refine (callers.supported.refute ⟨?_, ?_⟩).congr fun other => ?_
      · rintro ⟨_, caller, isCaller, several | ⟨isCall, branch⟩⟩
        · exact monomorphic (List.any_eq_true.mpr ⟨caller, isCaller, several⟩)
        · cases branch.symm.trans (callers.no result caller isCaller isCall).1
      · rintro _ ⟨_, caller, isCaller, isCall, rfl⟩
        exact (callers.no result caller isCaller isCall).2
      · -- The row that is added repeats the no that was kept on the way in.
        rw [lookup_cons]
        split
        · next same => rw [same, stays]
        · rfl

end

theorem askMethod_answered (known : method ∈ graph.program.methodIds)
    (room : unanswered graph answers < depth)
    (supported : Supported graph tags config pending answers) :
    Answered graph tags config pending answers method
      (askMethod graph tags config depth answers method) := by
  induction depth generalizing answers method pending with
  | zero => exact absurd room (Nat.not_lt_zero _)
  | succ depth ih =>
      unfold askMethod
      split
      · next found => exact ⟨.refl, found, supported⟩
      · next fresh =>
          simp only
          split
          · next tagged => exact answered_of_tagged supported fresh tagged
          · next untagged =>
              have untagged := Bool.eq_false_of_not_eq_true untagged
              split
              · next polymorphic =>
                  exact answered_of_polymorphic supported fresh untagged polymorphic
              · next monomorphic =>
                  -- The method counts as answered now, so there is one less for the callers.
                  have room : unanswered graph ((method, false) :: answers) < depth :=
                    Nat.lt_of_lt_of_le (unanswered_cons_lt known fresh) (Nat.le_of_lt_succ room)
                  exact answered_of_callers supported fresh monomorphic
                    (anyCaller_answered untagged (fun _ => id)
                      (fun _ _ known room supported => ih known room supported) room
                      (supported.begin fresh))

/-! ## Any number of questions -/

theorem ofMethod_answered (known : method ∈ graph.program.methodIds)
    (supported : Supported graph tags config [] answers) :
    Answered graph tags config [] answers method (ofMethod graph tags config answers method) := by
  refine askMethod_answered known (Nat.lt_succ_of_le ?_) supported
  have bound : unanswered graph answers ≤ graph.program.methodIds.length := List.countP_le_length
  simpa [Program.methodIds] using bound

theorem after_concat (queries : List MethodId) (method : MethodId) :
    after graph tags config (queries ++ [method]) =
      (ofMethod graph tags config (after graph tags config queries) method).2 := by
  simp [after]

section
variable {queries : List MethodId} (asked : ∀ query ∈ queries, query ∈ graph.program.methodIds)
include asked

theorem supported_after :
    Supported graph tags config [] (after graph tags config queries) := by
  refine List.foldlRecOn _ _ ⟨by simp, by simp⟩ fun answers supported query listed => ?_
  exact (ofMethod_answered (asked query listed) supported).supported

theorem no_yes_after (none : ∀ front query, (front ++ [query]).IsPrefix queries →
      answer graph tags config front query = false) (method : MethodId) :
    (after graph tags config queries).lookup method ≠ some true := by
  induction queries using List.reverseRecOn with
  | nil => simp [after]
  | append_singleton front query ih =>
      intro yes
      have earlier (other : MethodId) (listed : other ∈ front) : other ∈ graph.program.methodIds :=
        asked other (List.mem_append_left _ listed)
      have known := asked query (List.mem_append_right _ List.mem_cons_self)
      rw [after_concat] at yes
      rcases (ofMethod_answered known (supported_after earlier)).grown.new yes with old | ⟨_, result⟩
      · refine ih earlier (fun first last before => ?_) old
        exact none first last (before.trans (List.prefix_append _ _))
      · cases (none front query List.prefix_rfl).symm.trans (result rfl)

end

theorem Supported.not_interesting (supported : Supported graph tags config [] answers)
    (calm : (∀ other, answers.lookup other ≠ some true) ∨ ¬ Circular graph tags method)
    (no : answers.lookup method = some false) : ¬ Interesting graph tags config method := by
  intro interesting
  have refuted {method : MethodId} (no : answers.lookup method = some false)
      (calm : (∀ other, answers.lookup other ≠ some true) ∨ ¬ Circular graph tags method) :
      Refuted graph tags config answers method := by
    refine (supported.refuted (by simp) no).resolve_right fun ⟨circular, other, yes⟩ => ?_
    exact calm.elim (fun none => none other yes) fun straight => straight circular
  induction interesting with
  | direct direct => exact (refuted no calm).1 direct
  | caller asks _ ih =>
      refine ih (calm.imp_right fun straight circular => straight ?_) ((refuted no calm).2 _ asks)
      obtain ⟨other, reached, cycle⟩ := circular
      exact ⟨other, reached.head asks, cycle⟩

/-- Where calls are traced, a cycle of callers is a recursion that the tags cover. -/
theorem not_circular_of_traced {table : TagTable} (finite : graph.callSource.Finite)
    (traced : ∀ other, Relation.ReflTransGen (Asks graph (table.addCycles graph)) method other →
      Traced graph other) : ¬ Circular graph (table.addCycles graph) method := by
  rintro ⟨other, reached, cycle⟩
  have walk {last : MethodId}
      (above : Relation.TransGen (Asks graph (table.addCycles graph)) other last) :
      Relation.TransGen graph.callGraph.Edge last other := by
    have edge {below caller : MethodId}
        (arrived : Relation.ReflTransGen (Asks graph (table.addCycles graph)) other below)
        (asks : Asks graph (table.addCycles graph) below caller) :
        graph.callGraph.Edge caller below := by
      obtain ⟨_, call, isCaller, isCall, rfl⟩ := asks
      obtain ⟨visited, _, within, enters⟩ := traced below (reached.trans arrived) call isCaller isCall
      refine Digraph.mem_edges_explore.mpr ⟨visited, CallSource.mem_calledFrom.mpr ?_⟩
      exact ⟨call, within, enters, rfl⟩
    induction above with
    | single asks => exact .single (edge .refl asks)
    | tail before asks ih => exact .head (edge before.to_reflTransGen asks) ih
  -- The first question on the cycle is about a method without the tag.
  obtain ⟨_, ⟨untagged, _⟩, _⟩ := Relation.TransGen.head'_iff.mp cycle
  have tagged : (table.addCycles graph).methodHas other .interCycle = true :=
    TagTable.methodHas_addCycles_of_onCycle finite ⟨walk cycle, walk cycle⟩
  exact Bool.false_ne_true (untagged.symm.trans tagged)

/-- Whatever was asked before, a yes is right. So is a no, unless the question is circular
and an earlier answer was yes. With the tags of the cycles of the graph a question is
circular only if some call above the method is made by a method that the entry does not
reach, or does not enter what it calls. -/
theorem answer_eq_true_iff {program : Program} {specified : List PointId} {plan : CyclePlan}
    {shape : Config} (built : Supergraph.build program specified plan shape = .ok graph)
    (table : TagTable) (tagged : tags = table.addCycles graph) {queries : List MethodId}
    (asked : ∀ query ∈ queries, query ∈ program.methodIds) (known : method ∈ program.methodIds) :
    (answer graph tags config queries method = true → Interesting graph tags config method) ∧
      ((∀ front query, (front ++ [query]).IsPrefix queries →
          answer graph tags config front query = false) ∨ ¬ Circular graph tags method →
        (answer graph tags config queries method = true ↔ Interesting graph tags config method)) ∧
      ((∀ other, Relation.ReflTransGen (Asks graph tags) method other → Traced graph other) →
        ¬ Circular graph tags method) := by
  rw [← Supergraph.program_of_build built] at asked known
  have before : Supported graph tags config [] (after graph tags config queries) :=
    supported_after asked
  have here := ofMethod_answered known before
  have yes (isYes : answer graph tags config queries method = true) :
      Interesting graph tags config method := by
    exact here.supported.sound (here.found.trans (congrArg some isYes))
  refine ⟨yes, fun calm => ⟨yes, fun interesting => ?_⟩, ?_⟩
  · by_contra no
    have no : answer graph tags config queries method = false := Bool.eq_false_of_not_eq_true no
    refine here.supported.not_interesting (calm.imp_left fun none other found => ?_)
      (here.found.trans (congrArg some no)) interesting
    rcases here.grown.new found with earlier | ⟨_, result⟩
    · exact no_yes_after asked none other earlier
    · cases no.symm.trans (result rfl)
  · subst tagged
    exact not_circular_of_traced (Supergraph.finite_of_build built)

end Interest

/-- Two methods below the entry are also called out of a recursion of two methods, which
the entry does not reach. One of these is called from a branch. -/
def knottedListing : Listing where
  entry := some 0
  classes := [⟨0, "Main", none, [], false, false⟩]
  methods := [⟨0, 0, "main", "", true, false, [0, 1]⟩, ⟨1, 0, "first", "", true, false, [2]⟩,
    ⟨2, 0, "second", "", true, false, [3]⟩, ⟨3, 0, "leaf", "", true, false, [4]⟩,
    ⟨4, 0, "outer", "", true, false, [5, 6, 7, 8, 9, 10]⟩,
    ⟨5, 0, "inner", "", true, false, [11, 12]⟩, ⟨6, 0, "api", "", true, false, []⟩]
  points := [⟨0, 0, 1, .call ⟨1, .static, none, [], none⟩, ""⟩,
    ⟨1, 0, 2, .call ⟨2, .static, none, [], none⟩, ""⟩,
    ⟨2, 1, 3, .call ⟨3, .static, none, [], none⟩, ""⟩,
    ⟨3, 2, 4, .call ⟨3, .static, none, [], none⟩, ""⟩,
    ⟨4, 3, 5, .call ⟨6, .static, none, [], none⟩, ""⟩,
    ⟨5, 4, 6, .call ⟨1, .static, none, [], none⟩, ""⟩,
    ⟨6, 4, 7, .call ⟨5, .static, none, [], none⟩, ""⟩, ⟨7, 4, 8, .plain, ""⟩,
    ⟨8, 4, 9, .call ⟨4, .static, none, [], none⟩, ""⟩, ⟨9, 4, 10, .plain, ""⟩,
    ⟨10, 4, 11, .plain, ""⟩, ⟨11, 5, 12, .call ⟨4, .static, none, [], none⟩, ""⟩,
    ⟨12, 5, 13, .call ⟨2, .static, none, [], none⟩, ""⟩]
  edges := [⟨0, 1, false⟩, ⟨5, 6, false⟩, ⟨6, 7, false⟩, ⟨7, 8, false⟩, ⟨7, 9, false⟩,
    ⟨8, 10, false⟩, ⟨9, 10, false⟩, ⟨11, 12, false⟩]
  calls := [⟨0, 1⟩, ⟨1, 2⟩, ⟨2, 3⟩, ⟨3, 3⟩, ⟨4, 6⟩, ⟨5, 1⟩, ⟨6, 5⟩, ⟨11, 4⟩, ⟨8, 4⟩, ⟨12, 2⟩]
  allocSites := []
  pointsTo := []

def knottedProgram : Program := ⟨knottedListing, 0, rfl, by decide⟩

def knottedGraph : Supergraph := .assemble knottedProgram [] .empty .default

def knottedTags : TagTable := (TagTable.empty.addMethods knottedProgram).addCycles knottedGraph

theorem knottedGraph_built :
    Supergraph.build knottedProgram [] .empty .default = .ok knottedGraph :=
  Supergraph.build_empty .default (by simp)

theorem knottedTags_eq : knottedTags = ⟨[(9, .branch), (8, .branch)], [], []⟩ := by cbv

theorem knotted_interesting :
    Interest.Interesting knottedGraph knottedTags .default 2 := by
  have untagged (method : MethodId) : knottedTags.methodHas method .interCycle = false := by
    simp [knottedTags_eq, TagTable.methodHas]
  have callers : [2, 5, 4].map knottedGraph.callers = [[1, 12], [6], [11, 8]] := by cbv
  obtain ⟨second, inner, outer⟩ : knottedGraph.callers 2 = [1, 12] ∧
      knottedGraph.callers 5 = [6] ∧ knottedGraph.callers 4 = [11, 8] := by simpa using callers
  have program : knottedGraph.program = knottedProgram := Supergraph.program_assemble
  have calls : ∀ call ∈ [12, 6, 8], knottedGraph.isCall call = true := by
    unfold Supergraph.isCall
    rw [program]
    decide
  have inside : knottedGraph.methodOf 12 = 5 ∧ knottedGraph.methodOf 6 = 4 := by
    unfold Supergraph.methodOf
    rw [program]
    decide
  have toInner : Interest.Asks knottedGraph knottedTags 2 5 :=
    ⟨untagged 2, 12, by simp [second], calls 12 (by simp), inside.1⟩
  have toOuter : Interest.Asks knottedGraph knottedTags 5 4 :=
    ⟨untagged 5, 6, by simp [inner], calls 6 (by simp), inside.2⟩
  have branch : knottedTags.pointHas 8 .branch = true := by
    simp [knottedTags_eq, TagTable.pointHas]
  exact .caller toInner (.caller toOuter
    (.direct ⟨untagged 4, 8, by simp [outer], .inr ⟨calls 8 (by simp), branch⟩⟩))

theorem knotted_judged :
    Interest.answer knottedGraph knottedTags .default [] 0 = false ∧
      Interest.answer knottedGraph knottedTags .default [0] 2 = true := by
  have entry : Interest.answer knottedGraph knottedTags .default [] 0 = false := by
    rw [knottedTags_eq]
    cbv
  have asked : ∀ query ∈ [0], query ∈ knottedProgram.methodIds := by decide
  obtain ⟨_, exact, _⟩ := Interest.answer_eq_true_iff knottedGraph_built
    (TagTable.empty.addMethods knottedProgram) rfl asked (by decide : 2 ∈ knottedProgram.methodIds)
  refine ⟨entry, (exact (.inl fun front query before => ?_)).mpr knotted_interesting⟩
  obtain ⟨rest, same⟩ := before
  obtain ⟨rfl, rfl, _⟩ : front = [] ∧ query = 0 ∧ rest = [] := by
    simpa [List.append_eq_singleton_iff] using same
  exact entry

/-- After the question about the first method, the one about the second is answered
wrongly, and the call in it is taken out of the relation. -/
theorem knotted_misjudged :
    Supergraph.build knottedProgram [] .empty .default = .ok knottedGraph ∧
      knottedTags = (TagTable.empty.addMethods knottedProgram).addCycles knottedGraph ∧
      Interest.Interesting knottedGraph knottedTags .default 2 ∧
      Interest.answer knottedGraph knottedTags .default [1] 2 = false ∧
      knottedGraph.extension (.ofList [.seq [4]]) knottedTags .default =
        .ok ⟨[(4, [2, 1]), (2, [0]), (0, []), (1, [])]⟩ := by
  refine ⟨knottedGraph_built, rfl, knotted_interesting, ?_, ?_⟩
  · rw [knottedTags_eq]
    cbv
  · rw [knottedTags_eq]
    cbv

end SeqSlice
