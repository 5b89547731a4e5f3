import NesConsole.Bus

/-! Outcomes of programs over a state: two programs that agree on related states, what a program
leads to from the states of a predicate, and what it does to a chip on buses that answer it. -/
namespace NesConsole
section
variable {ε σ τ α δ κ κ' β γ : Type}

theorem bind_ok {x : EStateM ε σ δ} {f : δ → EStateM ε σ α} {s s' : σ} {d : δ}
    (h : x s = .ok d s') : (x >>= f) s = f d s' := by
  change EStateM.bind x f s = f d s'
  rw [EStateM.bind, h]

theorem bind_error {x : EStateM ε σ δ} {f : δ → EStateM ε σ α} {s s' : σ} {e : ε}
    (h : x s = .error e s') : (x >>= f) s = .error e s' := by
  change EStateM.bind x f s = .error e s'
  rw [EStateM.bind, h]

/-- A program that succeeds has succeeded in each of its parts. -/
theorem of_bind_ok {x : EStateM ε σ δ} {f : δ → EStateM ε σ α} {s t : σ} {a : α}
    (h : (x >>= f) s = .ok a t) : ∃ d s', x s = .ok d s' ∧ f d s' = .ok a t := by
  cases hx : x s with
  | ok d s' => exact ⟨d, s', rfl, (bind_ok hx).symm.trans h⟩
  | error e s' =>
    rw [bind_error hx] at h
    cases h

def Alike (R : σ → τ → Prop) : EStateM.Result ε σ α → EStateM.Result ε τ α → Prop
  | .ok a s, .ok b t => a = b ∧ R s t
  | .error e s, .error f t => e = f ∧ R s t
  | _, _ => False

/-- Related states go to equal outcomes in related states. -/
def Agree (R : σ → τ → Prop) (x : EStateM ε σ α) (y : EStateM ε τ α) : Prop :=
  ∀ s t, R s t → Alike R (x s) (y t)

namespace Alike
variable {R : σ → τ → Prop}

/-- Programs that agree go on from equal outcomes. -/
theorem bind {x : EStateM ε σ δ} {y : EStateM ε τ δ} {f : δ → EStateM ε σ α}
    {g : δ → EStateM ε τ α} {s : σ} {t : τ} (h : Alike R (x s) (y t))
    (hf : ∀ d, Agree R (f d) (g d)) : Alike R ((x >>= f) s) ((y >>= g) t) := by
  cases hs : x s <;> cases ht : y t <;> rw [hs, ht] at h
  case ok.ok d s' d' t' =>
    obtain ⟨rfl, h'⟩ := h
    rw [bind_ok hs, bind_ok ht]
    exact hf d s' t' h'
  case error.error =>
    rw [bind_error hs, bind_error ht]
    exact h
  all_goals exact h.elim

theorem mono {S : σ → τ → Prop} {r : EStateM.Result ε σ α} {r' : EStateM.Result ε τ α}
    (h : Alike R r r') (hR : ∀ s t, R s t → S s t) : Alike S r r' := by
  cases r <;> cases r'
  case ok.ok => exact ⟨h.1, hR _ _ h.2⟩
  case error.error => exact ⟨h.1, hR _ _ h.2⟩
  all_goals exact h.elim

theorem symm {R : σ → σ → Prop} (hR : ∀ s t, R s t → R t s) {r r' : EStateM.Result ε σ α}
    (h : Alike R r r') : Alike R r' r := by
  cases r <;> cases r' <;> try exact h.elim
  · exact ⟨h.1.symm, hR _ _ h.2⟩
  · exact ⟨h.1.symm, hR _ _ h.2⟩

theorem trans {R : σ → σ → Prop} (hR : ∀ s t u, R s t → R t u → R s u)
    {r r' r'' : EStateM.Result ε σ α} (h : Alike R r r') (h' : Alike R r' r'') :
    Alike R r r'' := by
  cases r <;> cases r' <;> cases r'' <;> try exact h.elim
  all_goals try exact h'.elim
  · exact ⟨h.1.trans h'.1, hR _ _ _ h.2 h'.2⟩
  · exact ⟨h.1.trans h'.1, hR _ _ _ h.2 h'.2⟩

end Alike

def SameChip (R : β → γ → Prop) (w : Wired κ β) (v : Wired κ γ) : Prop :=
  w.chip = v.chip ∧ R w.bus v.bus

namespace Agree
variable {R : σ → τ → Prop}

@[simp] theorem pure (a : α) : Agree (ε := ε) R (Pure.pure a) (Pure.pure a) :=
  fun _ _ h => ⟨rfl, h⟩

@[simp] theorem throw (e : ε) :
    Agree R (MonadExcept.throw e : EStateM ε σ α) (MonadExcept.throw e : EStateM ε τ α) :=
  fun _ _ h => ⟨rfl, h⟩

@[simp] theorem bind {x : EStateM ε σ α} {y : EStateM ε τ α} {f : α → EStateM ε σ δ}
    {g : α → EStateM ε τ δ} (hx : Agree R x y) (hf : ∀ a, Agree R (f a) (g a)) :
    Agree R (x >>= f) (y >>= g) := by
  intro s t h
  have hr := hx s t h
  cases hs : x s <;> cases ht : y t <;> rw [hs, ht] at hr
  case ok.ok a s' b t' =>
    obtain ⟨rfl, h'⟩ := hr
    rw [bind_ok hs, bind_ok ht]
    exact hf a s' t' h'
  case error.error =>
    rw [bind_error hs, bind_error ht]
    exact hr
  all_goals exact hr.elim

/-- Where one program succeeds, so does the other. -/
theorem ok_left {x : EStateM ε σ α} {y : EStateM ε τ α} (h : Agree R x y) {s : σ} {t t' : τ}
    {a : α} (hy : y t = .ok a t') (hR : R s t) : ∃ s', x s = .ok a s' ∧ R s' t' := by
  have hr := h s t hR
  cases hx : x s <;> rw [hx, hy] at hr
  case ok b s' =>
    obtain ⟨rfl, hs⟩ := hr
    exact ⟨s', rfl, hs⟩
  case error => exact hr.elim

/-- A program that begins by looking at its state. -/
theorem bind_get {f : σ → EStateM ε σ δ} {g : τ → EStateM ε τ δ}
    (h : ∀ s t, R s t → Alike R (f s s) (g t t)) :
    Agree R (get >>= f) (get >>= g) := h

end Agree

section
variable {R : β → γ → Prop}

@[simp] theorem Agree.look (f : κ → α) :
    Agree (ε := ε) (SameChip R) (Wired.look f) (Wired.look f) :=
  fun _ _ h => ⟨congrArg f h.1, h⟩

@[simp] theorem Agree.update (f : κ → κ) :
    Agree (ε := ε) (SameChip R) (Wired.update f) (Wired.update f) :=
  fun _ _ h => ⟨rfl, congrArg f h.1, h.2⟩

theorem Agree.onBus {x : EStateM ε β α} {y : EStateM ε γ α} (h : Agree R x y) :
    Agree (SameChip (κ := κ) R) (Wired.onBus x) (Wired.onBus y) := by
  intro ⟨c, b⟩ ⟨_, b'⟩ he
  obtain ⟨rfl, hb⟩ := he
  have hr := h b b' hb
  unfold Wired.onBus
  cases hs : x b <;> cases ht : y b' <;> simp_all [Alike, SameChip]

theorem Agree.onPart {get : κ → κ'} {put : κ' → κ → κ} {x : EStateM ε (Wired κ' β) α}
    {y : EStateM ε (Wired κ' γ) α} (h : Agree (SameChip R) x y) :
    Agree (SameChip R) (Wired.onPart get put x) (Wired.onPart get put y) := by
  intro ⟨c, b⟩ ⟨_, b'⟩ he
  obtain ⟨rfl, hb⟩ := he
  have hr := h ⟨get c, b⟩ ⟨get c, b'⟩ ⟨rfl, hb⟩
  unfold Wired.onPart
  cases hs : x ⟨get c, b⟩ <;> cases ht : y ⟨get c, b'⟩ <;> simp_all [Alike, SameChip]

end
end

section
variable {ε σ α δ κ β : Type} {P : σ → Prop} {Q : α → σ → Prop} {E : ε → σ → Prop}

/-- From a state in `P`, success ends in `Q` and a refusal in `E`. -/
def Leads (P : σ → Prop) (x : EStateM ε σ α) (Q : α → σ → Prop) (E : ε → σ → Prop) : Prop :=
  ∀ s, P s → match x s with
    | .ok a s' => Q a s'
    | .error e s' => E e s'

abbrev Goes (P : σ → Prop) (x : EStateM ε σ α) (P' : σ → Prop) : Prop :=
  Leads P x (fun _ => P') (fun _ => P')

/-- `P` holds afterwards, however the program ends. -/
def Keeps (P : σ → Prop) (x : EStateM ε σ α) : Prop := Goes P x P

theorem Leads.pure {a : α} (h : ∀ s, P s → Q a s) : Leads P (Pure.pure a) Q E := h

theorem Leads.bind {x : EStateM ε σ δ} {f : δ → EStateM ε σ α} {M : δ → σ → Prop}
    (hx : Leads P x M E) (hf : ∀ a, Leads (M a) (f a) Q E) : Leads P (x >>= f) Q E := by
  intro s hs
  have h := hx s hs
  cases hr : x s <;> rw [hr] at h
  case ok a s' =>
    rw [bind_ok hr]
    exact hf a s' h
  case error =>
    rw [bind_error hr]
    exact h

theorem Leads.bind_get {f : σ → EStateM ε σ α} (h : ∀ s, Leads P (f s) Q E) :
    Leads P (get >>= f) Q E := fun s hs => h s s hs

theorem Leads.ite {p : Prop} [Decidable p] {x y : EStateM ε σ α} (hx : Leads P x Q E)
    (hy : Leads P y Q E) : Leads P (if p then x else y) Q E := by
  split
  · exact hx
  · exact hy

theorem Leads.mono {x : EStateM ε σ α} {P' : σ → Prop} {Q' : α → σ → Prop} {E' : ε → σ → Prop}
    (h : Leads P' x Q' E') (hP : ∀ s, P s → P' s) (hQ : ∀ a s, Q' a s → Q a s)
    (hE : ∀ e s, E' e s → E e s) : Leads P x Q E := by
  intro s hs
  have hr := h s (hP s hs)
  cases hx : x s <;> simp_all

theorem Leads.of_ok {x : EStateM ε σ α} {s s' : σ} {a : α} (h : Leads P x Q E) (hs : P s)
    (hx : x s = .ok a s') : Q a s' := by
  have hr := h s hs
  rwa [hx] at hr

theorem Leads.and {x : EStateM ε σ α} {Q' : α → σ → Prop} {E' : ε → σ → Prop}
    (h : Leads P x Q E) (h' : Leads P x Q' E') :
    Leads P x (fun a s => Q a s ∧ Q' a s) fun e s => E e s ∧ E' e s := by
  intro s hs
  have hr := h s hs
  have hr' := h' s hs
  cases hx : x s <;> rw [hx] at hr hr' <;> exact ⟨hr, hr'⟩

theorem Keeps.and {P P' : σ → Prop} {x : EStateM ε σ α} (h : Keeps P x) (h' : Keeps P' x) :
    Keeps (fun s => P s ∧ P' s) x := by
  intro s hs
  have hp := h s hs.1
  have hp' := h' s hs.2
  cases hx : x s <;> rw [hx] at hp hp' <;> exact ⟨hp, hp'⟩

@[simp] theorem Keeps.pure (a : α) : Keeps (ε := ε) P (Pure.pure a) := fun _ h => h

theorem Keeps.onBus {P : β → Prop} {x : EStateM ε β α} (h : Keeps P x) :
    Keeps (fun w => P w.bus) (Wired.onBus (κ := κ) x) := by
  intro ⟨c, b⟩ hb
  have hr := h b hb
  dsimp only [Wired.onBus]
  cases hx : x b <;> rw [hx] at hr <;> exact hr

@[simp] theorem Keeps.throw (e : ε) : Keeps P (MonadExcept.throw e : EStateM ε σ α) :=
  fun _ h => h

@[simp] theorem Keeps.bind {x : EStateM ε σ δ} {f : δ → EStateM ε σ α} (hx : Keeps P x)
    (hf : ∀ a, Keeps P (f a)) : Keeps P (x >>= f) := Leads.bind hx hf

def Yields (Q : α → Prop) (x : EStateM ε σ α) : Prop :=
  Leads (fun _ => True) x (fun a _ => Q a) fun _ _ => True

namespace Yields
variable {Q : α → Prop}

theorem pure {a : α} (h : Q a) : Yields (ε := ε) (σ := σ) Q (Pure.pure a) := fun _ _ => h

theorem bind {M : δ → Prop} {x : EStateM ε σ δ} {f : δ → EStateM ε σ α} (hx : Yields M x)
    (hf : ∀ d, M d → Yields Q (f d)) : Yields Q (x >>= f) :=
  Leads.bind hx fun d s hd => hf d hd s trivial

theorem any {x : EStateM ε σ α} : Yields (fun _ => True) x := fun s _ => by cases x s <;> trivial

theorem after {x : EStateM ε σ δ} {f : δ → EStateM ε σ α} (hf : ∀ d, Yields Q (f d)) :
    Yields Q (x >>= f) :=
  bind any fun d _ => hf d

theorem onPart {κ' : Type} {get : κ → κ'} {put : κ' → κ → κ} {x : EStateM ε (Wired κ' β) α}
    (h : Yields Q x) : Yields Q (Wired.onPart get put x) := by
  intro ⟨c, b⟩ _
  have hr := h ⟨get c, b⟩ trivial
  dsimp only [Wired.onPart]
  cases hx : x ⟨get c, b⟩ <;> rw [hx] at hr <;> exact hr

end Yields

def stateAfter (x : EStateM ε σ α) (s : σ) : σ :=
  match x s with
  | .ok _ s' => s'
  | .error _ s' => s'

theorem Goes.stateAfter {x : EStateM ε σ α} {P' : σ → Prop} (h : Goes P x P') {s : σ} (hs : P s) :
    P' (stateAfter x s) := by
  have hr := h s hs
  unfold NesConsole.stateAfter
  cases hx : x s <;> rw [hx] at hr <;> exact hr

theorem Keeps.stateAfter {x : EStateM ε σ α} (h : Keeps P x) {s : σ} (hs : P s) :
    P (stateAfter x s) := Goes.stateAfter h hs

theorem Keeps.of_stateAfter {x : EStateM ε σ α} (h : ∀ s, P s → P (NesConsole.stateAfter x s)) :
    Keeps P x := by
  intro s hs
  have hafter := h s hs
  unfold NesConsole.stateAfter at hafter
  cases hx : x s <;> rw [hx] at hafter <;> exact hafter

/-- What agrees with a program ends as its model does, where the model was led to. -/
theorem Agree.alike_of_leads {τ : Type} {R : σ → τ → Prop} {x : EStateM ε σ α}
    {y : EStateM ε τ α} {P : σ → Prop} {P' : σ → Prop} (h : Agree R x y) (hx : Goes P x P') {s : σ}
    {t : τ} (hs : P s) (hR : R s t) : Alike (fun s t => R s t ∧ P' s) (x s) (y t) := by
  have hr := h s t hR
  have hp := hx s hs
  cases h₁ : x s <;> cases h₂ : y t <;> rw [h₁] at hp hr <;> rw [h₂] at hr
  case ok.ok => exact ⟨hr.1, hr.2, hp⟩
  case error.error => exact ⟨hr.1, hr.2, hp⟩
  all_goals exact hr.elim

end

section
variable {ε α δ κ κ' τ β : Type} {f : κ → τ}

def KeepsView (f : κ → τ) (x : EStateM ε (Wired κ β) α) : Prop :=
  ∀ v, Keeps (fun w => f w.chip = v) x

namespace KeepsView

@[simp] theorem pure (a : α) : KeepsView (ε := ε) (β := β) f (Pure.pure a) :=
  fun _ => Keeps.pure a

@[simp] theorem throw (e : ε) : KeepsView f (MonadExcept.throw e : EStateM ε (Wired κ β) α) :=
  fun _ => Keeps.throw e

@[simp] theorem bind {x : EStateM ε (Wired κ β) δ} {g : δ → EStateM ε (Wired κ β) α}
    (hx : KeepsView f x) (hg : ∀ a, KeepsView f (g a)) : KeepsView f (x >>= g) :=
  fun v => Keeps.bind (hx v) fun a => hg a v

@[simp] theorem look (g : κ → α) : KeepsView (ε := ε) (β := β) f (Wired.look g) :=
  fun _ _ h => h

theorem update {g : κ → κ} (h : ∀ c, f (g c) = f c) :
    KeepsView (ε := ε) (β := β) f (Wired.update g) :=
  fun _ w hw => (h w.chip).trans hw

@[simp] theorem onBus (x : EStateM ε β α) : KeepsView f (Wired.onBus x) := by
  intro v ⟨c, b⟩ hw
  dsimp only [Wired.onBus]
  cases x b <;> exact hw

theorem onPart {get : κ → κ'} {put : κ' → κ → κ} (x : EStateM ε (Wired κ' β) α)
    (h : ∀ k c, f (put k c) = f c) : KeepsView f (Wired.onPart get put x) := by
  intro v ⟨c, b⟩ hw
  dsimp only [Wired.onPart]
  cases x ⟨get c, b⟩ <;> exact (h _ c).trans hw

theorem ite {p : Prop} [Decidable p] {x y : EStateM ε (Wired κ β) α} (hx : KeepsView f x)
    (hy : KeepsView f y) : KeepsView f (if p then x else y) := by
  split
  · exact hx
  · exact hy

/-- What is seen of a view stays where the view does. -/
theorem map {τ' : Type} {x : EStateM ε (Wired κ β) α} (h : KeepsView f x) (g : τ → τ') :
    KeepsView (fun c => g (f c)) x := by
  rintro _ w rfl
  have hw := h _ w rfl
  cases hx : x w <;> rw [hx] at hw <;> exact congrArg g hw

/-- What a view tells of the chip stays where the view does. -/
theorem keeps {x : EStateM ε (Wired κ β) α} (h : KeepsView f x) {P : τ → Prop} :
    Keeps (fun w => P (f w.chip)) x := by
  intro w hw
  refine (h _).mono (fun _ h => h) (fun _ _ hr => ?_) (fun _ _ hr => ?_) w rfl
  all_goals rwa [hr]

variable [Bus β]

@[simp] theorem read (address : UInt16) : KeepsView (β := β) f (Wired.read address) :=
  onBus _

@[simp] theorem write (address : UInt16) (data : UInt8) :
    KeepsView (β := β) f (Wired.write address data) :=
  onBus _

end KeepsView
end

namespace Wired
variable {κ β : Type} [Bus β] {c : κ} {b b' : β} {address : UInt16} {byte : UInt8} {e : BusError}

theorem read_ok (h : Bus.read address b = .ok byte b') :
    read address (⟨c, b⟩ : Wired κ β) = .ok byte ⟨c, b'⟩ := by
  dsimp only [read, onBus]
  rw [h]

theorem read_error (h : Bus.read address b = .error e b') :
    read address (⟨c, b⟩ : Wired κ β) = .error e ⟨c, b'⟩ := by
  dsimp only [read, onBus]
  rw [h]

theorem write_ok (h : Bus.write address byte b = .ok () b') :
    write address byte (⟨c, b⟩ : Wired κ β) = .ok () ⟨c, b'⟩ := by
  dsimp only [write, onBus]
  rw [h]

theorem write_error (h : Bus.write address byte b = .error e b') :
    write address byte (⟨c, b⟩ : Wired κ β) = .error e ⟨c, b'⟩ := by
  dsimp only [write, onBus]
  rw [h]

end Wired

def Answers {β : Type} [Bus β] (good : β → Prop) (address : UInt16) (byte : UInt8) : Prop :=
  ∀ b, good b → ∃ b', Bus.read address b = .ok byte b' ∧ good b'

def Steady {β : Type} [Bus β] (mem : UInt16 → UInt8) (good : β → Prop) : Prop :=
  ∀ address, Answers good address (mem address)

section
variable {ε κ κ' β α δ : Type} {good : β → Prop}

/-- On a good bus the program takes chip `c` to `c'` and answers `a`. -/
def Does (good : β → Prop) (x : EStateM ε (Wired κ β) α) (c : κ) (a : α) (c' : κ) : Prop :=
  ∀ b, good b → ∃ b', x ⟨c, b⟩ = .ok a ⟨c', b'⟩ ∧ good b'

namespace Does
variable {c c' c'' : κ} {a : α}

theorem pure : Does (ε := ε) good (Pure.pure a) c a c := fun b h => ⟨b, rfl, h⟩

theorem bind {x : EStateM ε (Wired κ β) δ} {y : δ → EStateM ε (Wired κ β) α} {d : δ}
    (hx : Does good x c d c') (hy : Does good (y d) c' a c'') : Does good (x >>= y) c a c'' := by
  intro b h
  obtain ⟨b', hb', h'⟩ := hx b h
  obtain ⟨b'', hb'', h''⟩ := hy b' h'
  refine ⟨b'', ?_, h''⟩
  rw [bind_ok hb']
  exact hb''

theorem bind_get {g : Wired κ β → EStateM ε (Wired κ β) α}
    (h : ∀ b, good b → Does good (g ⟨c, b⟩) c a c') : Does good (get >>= g) c a c' :=
  fun b hb => h b hb b hb

theorem look (g : κ → α) : Does (ε := ε) good (Wired.look g) c (g c) c := fun b h => ⟨b, rfl, h⟩

theorem update (g : κ → κ) : Does (ε := ε) good (Wired.update g) c () (g c) :=
  fun b h => ⟨b, rfl, h⟩

theorem onPart {get : κ → κ'} {put : κ' → κ → κ} {x : EStateM ε (Wired κ' β) α} {d : κ'}
    (h : Does good x (get c) a d) : Does good (Wired.onPart get put x) c a (put d c) := by
  intro b hb
  obtain ⟨b', hb', h'⟩ := h b hb
  refine ⟨b', ?_, h'⟩
  dsimp only [Wired.onPart]
  rw [hb']

theorem pos {p : Prop} [Decidable p] {x y : EStateM ε (Wired κ β) α} (h : p)
    (hx : Does good x c a c') : Does good (if p then x else y) c a c' := by
  rwa [if_pos h]

theorem neg {p : Prop} [Decidable p] {x y : EStateM ε (Wired κ β) α} (h : ¬p)
    (hy : Does good y c a c') : Does good (if p then x else y) c a c' := by
  rwa [if_neg h]

theorem forM {ι : Type} {l : List ι} {x : ι → EStateM ε (Wired κ β) PUnit} {f : κ → ι → κ}
    (h : ∀ i ∈ l, ∀ c, Does good (x i) c () (f c i)) :
    Does good (l.forM x) c () (l.foldl f c) := by
  induction l generalizing c with
  | nil => exact .pure
  | cons i l ih =>
    exact .bind (h i List.mem_cons_self c) (ih fun j hj => h j (List.mem_cons_of_mem _ hj))

theorem read [Bus β] {address : UInt16} {byte : UInt8} (h : Answers good address byte) :
    Does good (Wired.read address) c byte c := by
  intro b hb
  obtain ⟨b', hb', h'⟩ := h b hb
  exact ⟨b', Wired.read_ok hb', h'⟩

end Does
end

end NesConsole
