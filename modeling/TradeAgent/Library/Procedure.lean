/-! Procedures over a state that may raise part way: what they did before raising stays done. -/
namespace TradeAgent

theorem bind_ok_iff {ε α β : Type} {x : Except ε α} {next : α → Except ε β} {b : β} :
    (x >>= next) = .ok b ↔ ∃ a, x = .ok a ∧ next a = .ok b := by
  cases x with
  | error fault => exact ⟨fun ran => (nomatch ran), fun ⟨_, ran, _⟩ => (nomatch ran)⟩
  | ok a => exact ⟨fun ran => ⟨a, rfl, ran⟩, fun ⟨_, same, ran⟩ => Except.ok.inj same ▸ ran⟩

theorem bind_exists_iff {ε α β : Type} {x : Except ε α} {next : α → Except ε β} :
    (∃ b, (x >>= next) = .ok b) ↔ ∃ a, x = .ok a ∧ ∃ b, next a = .ok b := by
  simp only [bind_ok_iff]
  exact ⟨fun ⟨b, a, ran, rest⟩ => ⟨a, ran, b, rest⟩, fun ⟨a, ran, b, rest⟩ => ⟨b, a, ran, rest⟩⟩

/-- A fold whose steps all succeed. -/
theorem foldlM_ok {α β ε : Type} {f : β → α → Except ε β} {g : β → α → β} {l : List α}
    (all : ∀ a ∈ l, ∀ b, f b a = .ok (g b a)) (b : β) : l.foldlM f b = .ok (l.foldl g b) := by
  induction l generalizing b with
  | nil => rfl
  | cons a rest ih =>
    rw [List.foldlM_cons, all a List.mem_cons_self]
    exact ih (fun a' member => all a' (List.mem_cons_of_mem a member)) _

theorem mapM_congr {α β ε : Type} {f g : α → Except ε β} {l : List α} (same : ∀ a ∈ l, f a = g a) :
    l.mapM f = l.mapM g := by
  induction l with
  | nil => rfl
  | cons a rest ih =>
    rw [List.mapM_cons, List.mapM_cons, same a List.mem_cons_self,
      ih fun b member => same b (List.mem_cons_of_mem a member)]

/-- A list of fallible results is one result of all when each is. -/
theorem mapM_ok_iff {α β ε : Type} {f : α → Except ε β} {l : List α} {bs : List β} :
    l.mapM f = .ok bs ↔ l.map f = bs.map Except.ok := by
  induction l generalizing bs with
  | nil =>
    rw [List.mapM_nil, List.map_nil, eq_comm (a := []), List.map_eq_nil_iff]
    exact ⟨fun same => (Except.ok.inj same).symm, fun same => same ▸ rfl⟩
  | cons a rest ih =>
    rw [List.mapM_cons, List.map_cons]
    constructor
    · intro done
      obtain ⟨b, first, done⟩ := bind_ok_iff.mp done
      obtain ⟨others, later, done⟩ := bind_ok_iff.mp done
      cases done
      rw [first, ih.mp later, List.map_cons]
    · intro same
      cases bs with
      | nil => cases same
      | cons b others =>
        rw [List.map_cons, List.cons.injEq] at same
        exact bind_ok_iff.mpr ⟨b, same.1, bind_ok_iff.mpr ⟨others, ih.mpr same.2, rfl⟩⟩

theorem forM_ok_iff {α ε : Type} {f : α → Except ε Unit} {l : List α} :
    l.forM f = .ok () ↔ ∀ a ∈ l, f a = .ok () := by
  induction l with
  | nil => exact ⟨fun _ _ member => (List.not_mem_nil member).elim, fun _ => rfl⟩
  | cons a rest ih =>
    have step : (a :: rest).forM f = f a >>= fun _ => rest.forM f := rfl
    rw [step, bind_ok_iff, List.forall_mem_cons, ← ih]
    exact ⟨fun ⟨_, first, later⟩ => ⟨first, later⟩, fun ⟨first, later⟩ => ⟨(), first, later⟩⟩

/-- The value or the fault, and the state left either way. -/
def Procedure (σ ε α : Type) := σ → Except ε α × σ

namespace Procedure

variable {σ ε α β : Type}

def pure (value : α) : Procedure σ ε α := fun s => (.ok value, s)

def bind (p : Procedure σ ε α) (next : α → Procedure σ ε β) : Procedure σ ε β := fun s =>
  match p s with
  | (.ok value, t) => next value t
  | (.error fault, t) => (.error fault, t)

instance : Monad (Procedure σ ε) where
  pure := pure
  bind := bind

def raise (fault : ε) : Procedure σ ε α := fun s => (.error fault, s)

def view (f : σ → α) : Procedure σ ε α := fun s => (.ok (f s), s)

def modify (f : σ → σ) : Procedure σ ε Unit := fun s => (.ok (), f s)

/-- A state transition that may refuse, and then changes nothing. -/
def attempt (f : σ → Except ε (α × σ)) : Procedure σ ε α := fun s =>
  match f s with
  | .ok (value, t) => (.ok value, t)
  | .error fault => (.error fault, s)

/-- Runs to the end or the fault, and returns which. -/
def caught (p : Procedure σ ε α) : Procedure σ ε (Except ε α) := fun s => (.ok (p s).1, (p s).2)

def lift : Except ε α → Procedure σ ε α
  | .ok value => pure value
  | .error fault => raise fault

def forEach (body : α → Procedure σ ε Unit) : List α → Procedure σ ε Unit
  | [] => pure ()
  | a :: rest => do
    body a
    forEach body rest

def mapEach (body : α → Procedure σ ε β) : List α → Procedure σ ε (List β)
  | [] => pure []
  | a :: rest => do
    let b ← body a
    let bs ← mapEach body rest
    return b :: bs

/-- Goes on to the next element as long as the body says so. -/
def whileEach (body : α → Procedure σ ε Bool) : List α → Procedure σ ε Unit
  | [] => pure ()
  | a :: rest => do
    if ← body a then whileEach body rest else return ()

/-- What holds before, what then holds of a value returned, and what of a fault raised. -/
def Triple (P : σ → Prop) (p : Procedure σ ε α) (Q : α → σ → Prop) (E : ε → σ → Prop) : Prop :=
  ∀ s, P s → (∀ a t, p s = (.ok a, t) → Q a t) ∧ ∀ e t, p s = (.error e, t) → E e t

/-- Holds before, and after whichever way the procedure ends. -/
def Keeps (I : σ → Prop) (p : Procedure σ ε α) : Prop := Triple I p (fun _ => I) fun _ => I

section rules

variable {P P' : σ → Prop} {Q Q' : α → σ → Prop} {R : β → σ → Prop} {E E' : ε → σ → Prop}

theorem Triple.conseq {p : Procedure σ ε α} (triple : Triple P p Q E) (pre : ∀ s, P' s → P s)
    (post : ∀ a s, Q a s → Q' a s) (fault : ∀ e s, E e s → E' e s) : Triple P' p Q' E' :=
  fun s holds => ⟨fun a t ran => post a t ((triple s (pre s holds)).1 a t ran),
    fun e t ran => fault e t ((triple s (pre s holds)).2 e t ran)⟩

theorem Triple.pre {p : Procedure σ ε α} (triple : Triple P p Q E) (pre : ∀ s, P' s → P s) :
    Triple P' p Q E := triple.conseq pre (fun _ _ h => h) fun _ _ h => h

theorem Triple.post {p : Procedure σ ε α} (triple : Triple P p Q E) (post : ∀ a s, Q a s → Q' a s) :
    Triple P p Q' E := triple.conseq (fun _ h => h) post fun _ _ h => h

theorem Triple.and {p : Procedure σ ε α} (one : Triple P p Q E) (two : Triple P' p Q' E') :
    Triple (fun s => P s ∧ P' s) p (fun a s => Q a s ∧ Q' a s) fun e s => E e s ∧ E' e s :=
  fun s holds => ⟨fun a t ran => ⟨(one s holds.1).1 a t ran, (two s holds.2).1 a t ran⟩,
    fun e t ran => ⟨(one s holds.1).2 e t ran, (two s holds.2).2 e t ran⟩⟩

theorem Triple.pure (value : α) (post : ∀ s, P s → Q value s) :
    Triple P (Pure.pure value : Procedure σ ε α) Q E := by
  intro s holds
  constructor
  · intro a t ran
    obtain ⟨same, rfl⟩ := Prod.mk.inj ran
    obtain rfl := Except.ok.inj same
    exact post s holds
  · intro e t ran
    obtain ⟨same, -⟩ := Prod.mk.inj ran
    exact nomatch same

theorem Triple.raise {fault : ε} (post : ∀ s, P s → E fault s) :
    Triple P (Procedure.raise fault : Procedure σ ε α) Q E := by
  intro s holds
  constructor
  · intro a t ran
    obtain ⟨same, -⟩ := Prod.mk.inj ran
    exact nomatch same
  · intro e t ran
    obtain ⟨same, rfl⟩ := Prod.mk.inj ran
    obtain rfl := Except.error.inj same
    exact post s holds

theorem Triple.bind {p : Procedure σ ε α} {next : α → Procedure σ ε β} (first : Triple P p Q E)
    (rest : ∀ a, Triple (Q a) (next a) R E) : Triple P (p >>= next) R E := by
  intro s holds
  obtain ⟨value, fault⟩ := first s holds
  change (∀ b t, Procedure.bind p next s = (.ok b, t) → R b t) ∧
    ∀ e t, Procedure.bind p next s = (.error e, t) → E e t
  unfold Procedure.bind
  cases ran : p s with
  | mk outcome t =>
    cases outcome with
    | ok a => exact rest a t (value a t ran)
    | error e =>
      refine ⟨fun _ _ stopped => (nomatch (Prod.mk.inj stopped).1), fun _ _ stopped => ?_⟩
      obtain ⟨same, rfl⟩ := Prod.mk.inj stopped
      obtain rfl := Except.error.inj same
      exact fault e t ran

theorem Triple.view {f : σ → α} (post : ∀ s, P s → Q (f s) s) :
    Triple P (Procedure.view f : Procedure σ ε α) Q E := by
  intro s holds
  refine ⟨fun a t ran => ?_, fun e t ran => nomatch (Prod.mk.inj ran).1⟩
  obtain ⟨same, rfl⟩ := Prod.mk.inj ran
  obtain rfl := Except.ok.inj same
  exact post s holds

/-- A reading, and what follows on the value read. -/
theorem Triple.bindView {f : σ → α} {next : α → Procedure σ ε β}
    (rest : ∀ a, Triple (fun s => P s ∧ f s = a) (next a) R E) :
    Triple P (Procedure.view f >>= next) R E :=
  Triple.bind (Triple.view fun _ holds => ⟨holds, rfl⟩) rest

theorem Triple.modify {f : σ → σ} {Q : Unit → σ → Prop} (post : ∀ s, P s → Q () (f s)) :
    Triple P (Procedure.modify f : Procedure σ ε Unit) Q E := by
  intro s holds
  refine ⟨fun a t ran => ?_, fun e t ran => nomatch (Prod.mk.inj ran).1⟩
  obtain ⟨-, rfl⟩ := Prod.mk.inj ran
  exact post s holds

theorem Triple.attempt {f : σ → Except ε (α × σ)}
    (post : ∀ s, P s → ∀ a t, f s = .ok (a, t) → Q a t)
    (fault : ∀ s, P s → ∀ e, f s = .error e → E e s) : Triple P (Procedure.attempt f) Q E := by
  intro s holds
  unfold Procedure.attempt
  cases done : f s with
  | ok result =>
    refine ⟨fun a t ran => ?_, fun e t ran => nomatch (Prod.mk.inj ran).1⟩
    obtain ⟨same, rfl⟩ := Prod.mk.inj ran
    obtain rfl := Except.ok.inj same
    exact post s holds _ _ done
  | error e =>
    refine ⟨fun a t ran => (nomatch (Prod.mk.inj ran).1), fun e t ran => ?_⟩
    obtain ⟨same, rfl⟩ := Prod.mk.inj ran
    obtain rfl := Except.error.inj same
    exact fault s holds _ done

theorem Triple.lift {x : Except ε α} (post : ∀ s, P s → ∀ a, x = .ok a → Q a s)
    (fault : ∀ s, P s → ∀ e, x = .error e → E e s) :
    Triple P (Procedure.lift x : Procedure σ ε α) Q E := by
  cases x with
  | ok a => exact Triple.pure a fun s holds => post s holds a rfl
  | error e => exact Triple.raise fun s holds => fault s holds e rfl

theorem Triple.caught {p : Procedure σ ε α} (triple : Triple P p Q E) :
    Triple P (Procedure.caught p : Procedure σ ε (Except ε α))
      (fun r s => (∀ a, r = .ok a → Q a s) ∧ ∀ e, r = .error e → E e s) E' := by
  intro s holds
  refine ⟨fun r t ran => ?_, fun e t ran => nomatch (Prod.mk.inj ran).1⟩
  obtain ⟨same, rfl⟩ := Prod.mk.inj ran
  obtain rfl := Except.ok.inj same
  exact ⟨fun a ok => (triple s holds).1 a _ (Prod.ext ok rfl),
    fun e error => (triple s holds).2 e _ (Prod.ext error rfl)⟩

/-- The loop rule: what holds of the rest still to do. -/
theorem Triple.forEach {body : α → Procedure σ ε Unit} {I : List α → σ → Prop}
    (step : ∀ a rest, Triple (I (a :: rest)) (body a) (fun _ => I rest) E) (l : List α) :
    Triple (I l) (Procedure.forEach body l) (fun _ => I []) E := by
  induction l with
  | nil => exact Triple.pure () fun _ holds => holds
  | cons a rest ih => exact Triple.bind (step a rest) fun _ => ih

/-- The loop rule for a loop with results: what holds of the rest to do and the results so far. -/
theorem Triple.mapEach {body : α → Procedure σ ε β} {I : List α → List β → σ → Prop}
    (step : ∀ a rest done, Triple (I (a :: rest) done) (body a) (fun b => I rest (done ++ [b])) E)
    (l : List α) (done : List β) :
    Triple (I l done) (Procedure.mapEach body l) (fun bs => I [] (done ++ bs)) E := by
  induction l generalizing done with
  | nil => exact Triple.pure [] fun _ holds => by simpa using holds
  | cons a rest ih =>
    refine Triple.bind (step a rest done) fun b => Triple.bind (ih (done ++ [b])) fun bs => ?_
    exact Triple.pure (b :: bs) fun _ holds => by simpa using holds

theorem Triple.ite {c : Prop} [Decidable c] {p q : Procedure σ ε α}
    (yes : c → Triple P p Q E) (no : ¬c → Triple P q Q E) : Triple P (if c then p else q) Q E := by
  by_cases holds : c
  · rw [if_pos holds]
    exact yes holds
  · rw [if_neg holds]
    exact no holds

/-- The rule of a loop that may stop early: what holds of the rest still to do, and at a stop. -/
theorem Triple.whileEach {body : α → Procedure σ ε Bool} {I : List α → σ → Prop} {S : σ → Prop}
    (step : ∀ a rest, Triple (I (a :: rest)) (body a)
      (fun more s => (more = true → I rest s) ∧ (more = false → S s)) E)
    (ended : ∀ s, I [] s → S s) (l : List α) :
    Triple (I l) (Procedure.whileEach body l) (fun _ => S) E := by
  induction l with
  | nil => exact Triple.pure () ended
  | cons a rest ih =>
    refine Triple.bind (step a rest) fun more => Triple.ite (fun goes => ?_) fun stops => ?_
    · exact ih.pre fun _ holds => holds.1 goes
    · exact Triple.pure () fun _ holds => holds.2 (Bool.eq_false_iff.mpr stops)

/-- A part of the precondition that says nothing of the state is a hypothesis. -/
theorem Triple.given {given : Prop} {p : Procedure σ ε α} (triple : given → Triple P p Q E) :
    Triple (fun s => P s ∧ given) p Q E := fun s holds => triple holds.2 s holds.1

/-- What is read of the state may be fixed. -/
theorem Triple.reading {γ : Type} {f : σ → γ} {I : γ → Prop} {p : Procedure σ ε α}
    (each : ∀ c, I c → Triple (fun s => f s = c) p Q E) : Triple (fun s => I (f s)) p Q E :=
  fun s holds => each (f s) holds s rfl

/-- A condition that stops the procedure before the rest of it. -/
theorem Triple.guard {c : Prop} [Decidable c] {fault : ε} {next : Unit → Procedure σ ε β}
    (raised : ∀ s, P s → E fault s) (rest : ¬c → Triple P (next ()) R E) :
    Triple P (if c then Procedure.raise fault >>= next else next ()) R E :=
  Triple.ite (fun _ => Triple.bind (Q := fun _ _ => False)
    (fun s holds => ⟨fun _ _ ran => (nomatch (Prod.mk.inj ran).1), fun e t ran => by
      obtain ⟨same, rfl⟩ := Prod.mk.inj ran
      obtain rfl := Except.error.inj same
      exact raised s holds⟩) fun _ _ impossible => impossible.elim) rest

/-- What holds whichever way the procedure ends. -/
theorem Triple.after {J : σ → Prop} {p : Procedure σ ε α} (triple : Triple P p (fun _ => J) fun _ => J)
    {s : σ} (holds : P s) : J (p s).2 := by
  obtain ⟨value, fault⟩ := triple s holds
  cases ended : p s with
  | mk outcome t =>
    cases outcome with
    | ok a => exact value a t ended
    | error e => exact fault e t ended

end rules

section keeping

variable {I : σ → Prop}

theorem Keeps.pure (value : α) : Keeps I (Pure.pure value : Procedure σ ε α) :=
  Triple.pure value fun _ holds => holds

theorem Keeps.raise (fault : ε) : Keeps I (Procedure.raise fault : Procedure σ ε α) :=
  Triple.raise fun _ holds => holds

theorem Keeps.view (f : σ → α) : Keeps I (Procedure.view f : Procedure σ ε α) :=
  Triple.view fun _ holds => holds

theorem Keeps.lift (x : Except ε α) : Keeps I (Procedure.lift x : Procedure σ ε α) :=
  Triple.lift (fun _ holds _ _ => holds) fun _ holds _ _ => holds

theorem Keeps.modify {f : σ → σ} (step : ∀ s, I s → I (f s)) :
    Keeps I (Procedure.modify f : Procedure σ ε Unit) := Triple.modify step

theorem Keeps.bind {p : Procedure σ ε α} {next : α → Procedure σ ε β} (first : Keeps I p)
    (rest : ∀ a, Keeps I (next a)) : Keeps I (p >>= next) := Triple.bind first rest

theorem Keeps.attempt {f : σ → Except ε (α × σ)}
    (step : ∀ s, I s → ∀ a t, f s = .ok (a, t) → I t) : Keeps I (Procedure.attempt f) :=
  Triple.attempt step fun _ holds _ _ => holds

theorem Keeps.caught {p : Procedure σ ε α} (keeps : Keeps I p) :
    Keeps I (Procedure.caught p : Procedure σ ε (Except ε α)) :=
  (Triple.caught keeps).post fun r s held => by
    cases r with
    | ok a => exact held.1 a rfl
    | error e => exact held.2 e rfl

theorem Keeps.forEach {body : α → Procedure σ ε Unit} (step : ∀ a, Keeps I (body a)) (l : List α) :
    Keeps I (Procedure.forEach body l) := Triple.forEach (I := fun _ => I) (fun a _ => step a) l

theorem Keeps.whileEach {body : α → Procedure σ ε Bool} (step : ∀ a, Keeps I (body a)) (l : List α) :
    Keeps I (Procedure.whileEach body l) :=
  Triple.whileEach (I := fun _ => I) (fun a _ => (step a).post fun _ _ h => ⟨fun _ => h, fun _ => h⟩)
    (fun _ h => h) l

theorem Keeps.mapEach {body : α → Procedure σ ε β} (step : ∀ a, Keeps I (body a)) (l : List α) :
    Keeps I (Procedure.mapEach body l) :=
  Triple.mapEach (I := fun _ _ => I) (fun a _ _ => step a) l []

theorem Keeps.ite {c : Prop} [Decidable c] {p q : Procedure σ ε α} (yes : c → Keeps I p)
    (no : ¬c → Keeps I q) : Keeps I (if c then p else q) := Triple.ite yes no

theorem Keeps.guard {c : Prop} [Decidable c] {fault : ε} {next : Unit → Procedure σ ε β}
    (rest : ¬c → Keeps I (next ())) :
    Keeps I (if c then Procedure.raise fault >>= next else next ()) :=
  Triple.guard (fun _ holds => holds) rest

theorem Keeps.after {p : Procedure σ ε α} (keeps : Keeps I p) {s : σ} (holds : I s) : I (p s).2 :=
  Triple.after keeps holds

end keeping

/-! ## What a procedure leaves alone -/

/-- A reading of the state is the same after, whichever way the procedure ends. -/
def Leaves {γ : Type} (f : σ → γ) (p : Procedure σ ε α) : Prop := ∀ c, Keeps (fun s => f s = c) p

section leaving

variable {γ : Type} {f : σ → γ}

theorem Leaves.keeps {p : Procedure σ ε α} (leaves : Leaves f p) (I : γ → Prop) :
    Keeps (fun s => I (f s)) p := by
  intro s holds
  obtain ⟨value, fault⟩ := leaves (f s) s rfl
  refine ⟨fun a t ran => ?_, fun e t ran => ?_⟩
  · exact (congrArg I (value a t ran)).mpr holds
  · exact (congrArg I (fault e t ran)).mpr holds

theorem Leaves.pure (value : α) : Leaves f (Pure.pure value : Procedure σ ε α) :=
  fun _ => Keeps.pure value

theorem Leaves.raise (fault : ε) : Leaves f (Procedure.raise fault : Procedure σ ε α) :=
  fun _ => Keeps.raise fault

theorem Leaves.view {β : Type} (g : σ → β) : Leaves f (Procedure.view g : Procedure σ ε β) :=
  fun _ => Keeps.view g

theorem Leaves.lift (x : Except ε α) : Leaves f (Procedure.lift x : Procedure σ ε α) :=
  fun _ => Keeps.lift x

theorem Leaves.modify {g : σ → σ} (same : ∀ s, f (g s) = f s) :
    Leaves f (Procedure.modify g : Procedure σ ε Unit) :=
  fun _ => Triple.modify fun s holds => (same s).trans holds

theorem Leaves.attempt {g : σ → Except ε (α × σ)}
    (step : ∀ s a t, g s = .ok (a, t) → f t = f s) : Leaves f (Procedure.attempt g) :=
  fun _ => Keeps.attempt fun s same a t done => (step s a t done).trans same

theorem Leaves.bind {p : Procedure σ ε α} {next : α → Procedure σ ε β} (first : Leaves f p)
    (rest : ∀ a, Leaves f (next a)) : Leaves f (p >>= next) :=
  fun c => Keeps.bind (first c) fun a => rest a c

theorem Leaves.ite {c : Prop} [Decidable c] {p q : Procedure σ ε α} (yes : Leaves f p)
    (no : Leaves f q) : Leaves f (if c then p else q) :=
  fun d => Keeps.ite (fun _ => yes d) fun _ => no d

end leaving

end Procedure

end TradeAgent
