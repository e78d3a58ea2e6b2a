import RtlBridge.Note

/-! Computations that leave notes and may fail. The notes made before a failure are kept, so a run that
fails still tells how far it came; `result` forgets the notes. -/

namespace RtlBridge

structure Traced (ε α : Type) where
  notes : List Note
  result : Except ε α

namespace Traced

variable {ε α β : Type}

instance : Monad (Traced ε) where
  pure a := ⟨[], .ok a⟩
  bind x f :=
    match x.result with
    | .ok a => let y := f a; ⟨x.notes ++ y.notes, y.result⟩
    | .error e => ⟨x.notes, .error e⟩

instance : MonadExceptOf ε (Traced ε) where
  throw e := ⟨[], .error e⟩
  tryCatch x handler :=
    match x.result with
    | .ok _ => x
    | .error e => let y := handler e; ⟨x.notes ++ y.notes, y.result⟩

def note (n : Note) : Traced ε Unit := ⟨[n], .ok ()⟩

def ofExcept (x : Except ε α) : Traced ε α := ⟨[], x⟩

instance : MonadLift (Except ε) (Traced ε) := ⟨ofExcept⟩

def mapError {ε' : Type} (f : ε → ε') (x : Traced ε α) : Traced ε' α := ⟨x.notes, x.result.mapError f⟩

@[simp] theorem result_pure (a : α) : (pure a : Traced ε α).result = .ok a := rfl

@[simp] theorem result_throw (e : ε) : (throw e : Traced ε α).result = .error e := rfl

@[simp] theorem result_note (n : Note) : (note n : Traced ε Unit).result = .ok () := rfl

@[simp] theorem result_ofExcept (x : Except ε α) : (ofExcept x).result = x := rfl

@[simp] theorem result_mapError {ε' : Type} (f : ε → ε') (x : Traced ε α) :
    (x.mapError f).result = x.result.mapError f := rfl

@[simp] theorem result_bind (x : Traced ε α) (f : α → Traced ε β) :
    (x >>= f).result = x.result >>= fun a => (f a).result := by
  cases h : x.result <;> simp [bind, Except.bind, h]

private theorem id_map_traced (x : Traced ε α) : id <$> x = x := by
  rcases x with ⟨notes, result⟩
  cases result <;> simp [Functor.map]

private theorem bind_assoc_traced {γ : Type} (x : Traced ε α) (f : α → Traced ε β)
    (g : β → Traced ε γ) : x >>= f >>= g = x >>= fun a => f a >>= g := by
  rcases x with ⟨notes, result⟩
  cases result with
  | error e => rfl
  | ok a => simp only [bind]; cases (f a).result <;> simp

instance : LawfulMonad (Traced ε) :=
  LawfulMonad.mk' (Traced ε) id_map_traced (fun a f => by simp [bind, pure]) bind_assoc_traced

end Traced

end RtlBridge
