/-!
# Conversations with an oracle

A program that calls an untrusted service is modelled against an oracle whose
answer may depend on everything said before.  The log of a conversation is part
of the state, so that what was asked can be stated as well as what came back.
-/

namespace Panops
namespace Lib
namespace Dialogue

variable {Q A : Type}

structure Exchange (Q A : Type) where
  query : Q
  answer : A

abbrev Log (Q A : Type) := List (Exchange Q A)

abbrev Oracle (Q A : Type) := Log Q A → Q → A

/-- Put a question; the answer and the extended log. -/
def ask (oracle : Oracle Q A) (log : Log Q A) (query : Q) : A × Log Q A :=
  (oracle log query, log ++ [⟨query, oracle log query⟩])

@[simp] theorem ask_fst (oracle : Oracle Q A) (log : Log Q A) (query : Q) :
    (ask oracle log query).1 = oracle log query := rfl

@[simp] theorem ask_snd (oracle : Oracle Q A) (log : Log Q A) (query : Q) :
    (ask oracle log query).2 = log ++ [⟨query, oracle log query⟩] := rfl

end Dialogue

end Lib
end Panops
