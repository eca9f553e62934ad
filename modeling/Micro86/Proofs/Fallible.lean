/-! Computations that may fail: what a success says about the parts, and a failure. -/
namespace Micro86

variable {ε ζ α β : Type}

@[simp] theorem ok_bind (a : α) (f : α → Except ε β) : (Except.ok a >>= f) = f a := rfl

@[simp] theorem error_bind (e : ε) (f : α → Except ε β) : (Except.error e >>= f) = .error e := rfl

@[simp] theorem pure_eq_ok (a : α) : (pure a : Except ε α) = .ok a := rfl

theorem bind_eq_ok {x : Except ε α} {f : α → Except ε β} {b : β} :
    (x >>= f) = .ok b ↔ ∃ a, x = .ok a ∧ f a = .ok b := by
  cases x <;> simp

theorem foldlM_cons_eq_ok {f : β → α → Except ε β} {b c : β} {a : α} {l : List α} :
    (a :: l).foldlM f b = .ok c ↔ ∃ mid, f b a = .ok mid ∧ l.foldlM f mid = .ok c := by
  rw [List.foldlM_cons,bind_eq_ok]

theorem length_of_mapM {f : α → Except ε β} {l : List α} {r : List β} (h : l.mapM f = .ok r) :
    r.length = l.length := by
  induction l generalizing r with
  | nil => cases h; rfl
  | cons a l ih =>
    rw [List.mapM_cons] at h
    obtain ⟨b,-,h⟩ := bind_eq_ok.mp h
    obtain ⟨bs,hbs,h⟩ := bind_eq_ok.mp h
    cases h
    simp [ih hbs]

/-- The results stand where their arguments stood. -/
theorem getElem?_of_mapM {f : α → Except ε β} {l : List α} {r : List β} (h : l.mapM f = .ok r)
    {i : Nat} {a : α} (ha : l[i]? = some a) : ∃ b, r[i]? = some b ∧ f a = .ok b := by
  induction l generalizing r i with
  | nil => simp at ha
  | cons c l ih =>
    rw [List.mapM_cons] at h
    obtain ⟨b,hb,h⟩ := bind_eq_ok.mp h
    obtain ⟨bs,hbs,h⟩ := bind_eq_ok.mp h
    cases h
    cases i with
    | zero =>
      obtain rfl : c = a := by simpa using ha
      exact ⟨b,by simp,hb⟩
    | succ i =>
      obtain ⟨d,hd,hf⟩ := ih hbs (by simpa using ha)
      exact ⟨d,by simpa using hd,hf⟩

/-- Every result comes from the argument that stood at its place. -/
theorem getElem?_mapM {f : α → Except ε β} {l : List α} {r : List β} (h : l.mapM f = .ok r)
    {i : Nat} {b : β} (hb : r[i]? = some b) : ∃ a, l[i]? = some a ∧ f a = .ok b := by
  have hlt : i < l.length := by
    rw [← length_of_mapM h]
    exact (List.getElem?_eq_some_iff.mp hb).1
  obtain ⟨c,hc,hf⟩ := getElem?_of_mapM h (List.getElem?_eq_getElem hlt)
  obtain rfl : c = b := Option.some.inj (hc.symm.trans hb)
  exact ⟨l[i],List.getElem?_eq_getElem hlt,hf⟩

/-- A list is done if each of its elements is. -/
theorem exists_mapM_eq_ok {f : α → Except ε β} {l : List α} :
    (∃ r, l.mapM f = .ok r) ↔ ∀ a ∈ l, ∃ b, f a = .ok b := by
  constructor
  · rintro ⟨r,hr⟩ a ha
    obtain ⟨i,hi⟩ := List.mem_iff_getElem?.mp ha
    obtain ⟨b,-,hb⟩ := getElem?_of_mapM hr hi
    exact ⟨b,hb⟩
  · intro h
    induction l with
    | nil => exact ⟨[],rfl⟩
    | cons a l ih =>
      obtain ⟨b,hb⟩ := h a List.mem_cons_self
      obtain ⟨r,hr⟩ := ih fun c hc => h c (List.mem_cons_of_mem a hc)
      exact ⟨b :: r,by rw [List.mapM_cons,hb,hr]; rfl⟩

/-- A list that is changed element by element has its results changed one by one. -/
theorem mapM_map_eq_map_mapM {γ δ : Type} {f : α → Except ε β} {g : γ → Except ε δ} {φ : α → γ}
    {ψ : β → δ} {l : List α} (h : ∀ a ∈ l, g (φ a) = (f a).map ψ) :
    (l.map φ).mapM g = (l.mapM f).map (List.map ψ) := by
  induction l with
  | nil => rfl
  | cons a l ih =>
    have hrest := ih fun b hb => h b (List.mem_cons_of_mem a hb)
    rw [List.map_cons,List.mapM_cons,List.mapM_cons,h a List.mem_cons_self,hrest]
    cases f a with
    | error e => rfl
    | ok b => cases l.mapM f <;> rfl

theorem forM_eq_ok {f : α → Except ε Unit} {l : List α} :
    l.forM f = .ok () ↔ ∀ a ∈ l, f a = .ok () := by
  induction l with
  | nil => simp
  | cons a l ih =>
    have hcons : (a :: l).forM f = f a >>= fun _ => l.forM f := rfl
    rw [hcons,bind_eq_ok,List.forall_mem_cons,ih]
    constructor
    · rintro ⟨⟨⟩,ha,hl⟩
      exact ⟨ha,hl⟩
    · rintro ⟨ha,hl⟩
      exact ⟨(),ha,hl⟩

theorem mapError_eq_ok {x : Except ε α} {f : ε → ζ} {a : α} :
    x.mapError f = .ok a ↔ x = .ok a := by
  cases x with
  | error e => constructor <;> nofun
  | ok b =>
    constructor
    all_goals
      intro h
      cases h
      rfl

/-! ### Failures -/

theorem bind_eq_error {x : Except ε α} {f : α → Except ε β} {e : ε} :
    (x >>= f) = .error e ↔ x = .error e ∨ ∃ a, x = .ok a ∧ f a = .error e := by
  cases x <;> simp

theorem mapError_eq_error {x : Except ε α} {f : ε → ζ} {d : ζ} :
    x.mapError f = .error d ↔ ∃ e, x = .error e ∧ f e = d := by
  cases x with
  | error e =>
    have hmap : (Except.error e : Except ε α).mapError f = .error (f e) := rfl
    rw [hmap]
    simp
  | ok a =>
    have hmap : (Except.ok a : Except ε α).mapError f = .ok a := rfl
    rw [hmap]
    simp

theorem mapError_map (x : Except ε α) (f : α → β) (g : ε → ζ) :
    (x.map f).mapError g = (x.mapError g).map f := by
  cases x <;> rfl

theorem foldlM_eq_error {f : β → α → Except ε β} {b : β} {l : List α} {e : ε}
    (h : l.foldlM f b = .error e) : ∃ a ∈ l, ∃ c, f c a = .error e := by
  induction l generalizing b with
  | nil => simp at h
  | cons a l ih =>
    rw [List.foldlM_cons] at h
    obtain h | ⟨c,-,h⟩ := bind_eq_error.mp h
    · exact ⟨a,List.mem_cons_self,b,h⟩
    · obtain ⟨a',ha',hf⟩ := ih h
      exact ⟨a',List.mem_cons_of_mem a ha',hf⟩

theorem mapM_eq_error {f : α → Except ε β} {l : List α} {e : ε} (h : l.mapM f = .error e) :
    ∃ a ∈ l, f a = .error e := by
  induction l with
  | nil => simp at h
  | cons a l ih =>
    rw [List.mapM_cons] at h
    obtain h | ⟨b,-,h⟩ := bind_eq_error.mp h
    · exact ⟨a,List.mem_cons_self,h⟩
    · obtain h | ⟨bs,-,h⟩ := bind_eq_error.mp h
      · obtain ⟨a',ha',hf⟩ := ih h
        exact ⟨a',List.mem_cons_of_mem a ha',hf⟩
      · simp at h

theorem forM_eq_error {f : α → Except ε Unit} {l : List α} {e : ε} (h : l.forM f = .error e) :
    ∃ a ∈ l, f a = .error e := by
  induction l with
  | nil => simp at h
  | cons a l ih =>
    have hcons : (a :: l).forM f = f a >>= fun _ => l.forM f := rfl
    rw [hcons] at h
    obtain h | ⟨u,-,h⟩ := bind_eq_error.mp h
    · exact ⟨a,List.mem_cons_self,h⟩
    · obtain ⟨a',ha',hf⟩ := ih h
      exact ⟨a',List.mem_cons_of_mem a ha',hf⟩

/-! ### Two computations side by side -/

/-- The second computation does what the first one does: it succeeds with the changed result, or it
fails with an error that looks the same. -/
inductive Follows (view : ε → ζ) (change : α → β) : Except ε α → Except ε β → Prop
  | ok (a : α) : Follows view change (.ok a) (.ok (change a))
  | error {e d : ε} (h : view e = view d) : Follows view change (.error e) (.error d)

namespace Follows

variable {γ δ η : Type} {view : ε → ζ} {change : α → β} {x : Except ε α} {y : Except ε β}

theorem eq (h : Follows view change x y) : y.mapError view = (x.map change).mapError view := by
  cases h with
  | ok a => rfl
  | error he => exact congrArg Except.error he.symm

theorem same {x y : Except ε α} (h : Follows view id x y) : y.mapError view = x.mapError view := by
  cases h with
  | ok a => rfl
  | error he => exact congrArg Except.error he.symm

theorem ok_or_error (h : Follows view change x y) : (∃ a, x = .ok a ∧ y = .ok (change a)) ∨
    ∃ e d, x = .error e ∧ y = .error d ∧ view e = view d := by
  cases h with
  | ok a => exact .inl ⟨a,rfl,rfl⟩
  | error he => exact .inr ⟨_,_,rfl,rfl,he⟩

theorem refl (view : ε → ζ) (x : Except ε α) : Follows view id x x := by
  cases x with
  | error e => exact .error rfl
  | ok a => exact .ok a

/-- Errors that are wrapped alike look alike. -/
theorem wrap {wrap : η → ε} {x : Except η α} {y : Except η β}
    (h : Follows (fun e => view (wrap e)) change x y) :
    Follows view change (x.mapError wrap) (y.mapError wrap) := by
  cases h with
  | ok a => exact .ok a
  | error he => exact .error he

theorem bind {next : γ → δ} {f : α → Except ε γ} {g : β → Except ε δ}
    (h : Follows view change x y) (hf : ∀ a, x = .ok a → Follows view next (f a) (g (change a))) :
    Follows view next (x >>= f) (y >>= g) := by
  cases h with
  | ok a => exact hf a rfl
  | error he => exact .error he

theorem foldlM {turn : γ → δ} {f : α → γ → Except ε α} {g : β → δ → Except ε β}
    (h : ∀ a c, Follows view change (f a c) (g (change a) (turn c))) (l : List γ) (a : α) :
    Follows view change (l.foldlM f a) ((l.map turn).foldlM g (change a)) := by
  induction l generalizing a with
  | nil => exact .ok a
  | cons c l ih =>
    rw [List.map_cons,List.foldlM_cons,List.foldlM_cons]
    exact (h a c).bind fun b _ => ih b

theorem mapM {turn : γ → δ} {f : γ → Except ε α} {g : δ → Except ε β} {l : List γ}
    (h : ∀ c ∈ l, Follows view change (f c) (g (turn c))) :
    Follows view (List.map change) (l.mapM f) ((l.map turn).mapM g) := by
  induction l with
  | nil => exact .ok []
  | cons c l ih =>
    rw [List.map_cons,List.mapM_cons,List.mapM_cons]
    refine (h c List.mem_cons_self).bind fun a _ => ?_
    refine (ih fun b hb => h b (List.mem_cons_of_mem c hb)).bind fun as _ => ?_
    exact .ok (a :: as)

end Follows
end Micro86
