import Overrides.Json.Reader
import Overrides.Proofs.Outcome

/-!
# `Overrides.Proofs.Json.Run`: what a reader does to a text

A reader maps the length of the whole text and the bytes that are left
to a value and the bytes that are then left, or to a fault. The lemmas
here say so for the ways readers are put together and for the readers
that look at one byte; with them a reader is run on a text by
rewriting. `Gives` says what a reader gives, whatever the text, when it
succeeds.
-/

set_option autoImplicit false

namespace Overrides.Json.Reader

variable {α β : Type} {limit : Nat} {bytes rest : List UInt8} {b : UInt8}

/-! ### Readers put together -/

/-- Giving a value back takes no byte. As a `simp` lemma it ends most runs. -/
@[simp] theorem run_pure (a : α) : (pure a : Reader α) limit bytes = .ok (a, bytes) := rfl

/-- A reader behind another one goes on with the value and with the bytes that the first
one leaves. The length of the whole text is the same for both. -/
theorem run_bind (r : Reader α) (f : α → Reader β) :
    (r >>= f) limit bytes = (r limit bytes).bind fun p => f p.1 limit p.2 := rfl

/-- A reader that succeeds hands its value and what it leaves on to the next one. With
this a long reader is run on a text one part at a time. -/
theorem run_bind_ok {r : Reader α} {a : α} (h : r limit bytes = .ok (a, rest))
    (f : α → Reader β) : (r >>= f) limit bytes = f a limit rest := by
  rw [run_bind, h]
  rfl

/-- Looking at all that is left takes none of it away. -/
theorem run_get_bind (f : List UInt8 → Reader α) :
    (get >>= f) limit bytes = f bytes limit bytes := rfl

/-- A reader may put other bytes in the place of what is left. It is how the ones that
take a run of bytes at once skip it. -/
theorem run_set_bind (f : PUnit → Reader α) :
    (set rest >>= f) limit bytes = f ⟨⟩ limit rest := rfl

/-- The length of the whole text is there to be read at any place. Loops take it as their
fuel. -/
theorem run_read_bind (f : Nat → Reader α) :
    ((MonadReader.read : Reader Nat) >>= f) limit bytes = f limit limit bytes := rfl

/-! ### One byte -/

/-- The next byte is looked at and stays, and at the end there is none. -/
theorem run_peek_bind (f : Option UInt8 → Reader α) :
    (peek >>= f) limit bytes = f bytes.head? limit bytes := rfl

/-- The next byte is passed over. -/
theorem run_drop_bind (f : Unit → Reader α) :
    (drop >>= f) limit (b :: bytes) = f () limit bytes := rfl

/-- Where no white space stands before the next token, looking for the token finds it in
front and takes nothing away. Canonical text has no white space at all. -/
theorem run_peekToken_bind (h : isGap b = false) (f : Option UInt8 → Reader α) :
    (peekToken >>= f) limit (b :: bytes) = f (some b) limit (b :: bytes) := by
  -- The reader drops blanks and then looks at the byte behind them.
  show f ((b :: bytes).dropWhile isGap).head? limit ((b :: bytes).dropWhile isGap) = _
  rw [List.dropWhile_cons_of_neg (by rw [h]; decide)]
  rfl

/-! ### What readers give -/

/-- Whatever the reader gives has the property. That holds for every text and wherever the
reader starts in it, so nothing is said of readers that fail. -/
def Gives (r : Reader α) (q : α → Prop) : Prop := ∀ limit, Yields (r limit) q

namespace Gives

variable {r : Reader α} {q : α → Prop} {q' : β → Prop}

/-- Nothing is said of what a reader gives. It is used for the parts of a reader that the
property does not depend on, such as punctuation. -/
theorem any (r : Reader α) : Gives r fun _ => True := fun limit => Yields.any (r limit)

/-- A value that has the property may be given back. -/
theorem pure {a : α} (h : q a) : Gives (Pure.pure a) q := fun _ => Yields.pure h

/-- A reader that fails gives nothing, so it gives nothing wrong. -/
theorem throw (e : Fault) : Gives (MonadExcept.throw e) q := fun _ => Yields.throw e

/-- What the first reader gives is known to the second one. This is the rule for readers
put together, as in a program logic. -/
theorem bind {f : α → Reader β} (hr : Gives r q) (hf : ∀ a, q a → Gives (f a) q') :
    Gives (r >>= f) q' := fun limit => (hr limit).bind fun a ha => hf a ha limit

/-- What every member keeps holds at the end of the object. The property is an invariant
of the state that the members are folded into. -/
theorem foldMembers {member : String → α → Reader α} (hmember : ∀ n s, q s → Gives (member n s) q)
    (fuel : Nat) (first : Bool) {s : α} (hs : q s) : Gives (foldMembers member fuel first s) q := by
  -- The fuel bounds the number of members. Running out of it is a fault, and a fault gives
  -- nothing.
  induction fuel generalizing first s with
  | zero => exact throw _
  | succ fuel ih =>
    rw [Reader.foldMembers]
    refine bind (any _) fun ahead _ => ?_
    split
    -- A member: its name says nothing about the property, its value keeps it.
    · exact bind (any _) fun n _ => bind (hmember n s hs) fun s' hs' => ih false hs'
    · exact bind (any _) fun _ _ => pure hs

/-- What a reader gives, it gives of a whole text: the check that nothing stands behind
the value changes nothing about the value. -/
theorem run {bytes : List UInt8} {a : α} (hr : Gives r q) (h : r.run bytes = .ok a) : q a := by
  have hgives : Gives (r >>= fun a => finish >>= fun _ => Pure.pure a) q :=
    hr.bind fun a ha => (any _).bind fun _ _ => pure ha
  exact (hgives bytes.length).of_run' h

end Gives

end Overrides.Json.Reader
