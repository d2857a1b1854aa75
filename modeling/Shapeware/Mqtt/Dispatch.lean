import Shapeware.Mqtt.Imp

/-!
# Dispatch of received messages

`msgarrvd` goes through `m_onMessageHndlMap` and compares every topic filter with the topic of the
message in three ways, one after the other: as equal strings, as a prefix that ends in `#`, and, if
there is a `+`, token by token. Each comparison calls the handler on its own.
-/

namespace Shapeware.Mqtt

variable {H : Type}

/-- An access outside of a string or a vector, which C++ leaves undefined. -/
inductive Fault
  | outOfRange
deriving DecidableEq

/-- The call of a message handler, and the topic filter it is registered for. -/
structure MessageCall (H : Type) where
  filter : StdString
  hndl : H
  topic : StdString
  msg : StdString
deriving DecidableEq

/-- The loop of `tokenizeTopic`: the token before the next delimiter is cut off. -/
def tokenizeLoop (delimit : UInt8) (s : StdString) (retval : List StdString) : List StdString :=
  match _hfind : s.idxOf? delimit with
  | some pos => tokenizeLoop delimit (s.drop (pos + 1)) (retval ++ [s.take pos])
  | none => retval ++ [s]
termination_by s.length
decreasing_by
  have hne : s ≠ [] := by
    rintro rfl
    simp at _hfind
  have := List.length_pos_iff.mpr hne
  rw [List.length_drop]
  omega

def tokenizeTopic (tokens : StdString) (delimit : UInt8 := '/'.toUInt8) : List StdString :=
  tokenizeLoop delimit tokens []

/-- The topic of a message: `topicLen` is only set when zero bytes are part of the topic. -/
def receivedTopic (topicName : List UInt8) (topicLen : Int) : StdString :=
  if 0 < topicLen then topicName.take topicLen.toNat else topicName.takeWhile (· ≠ 0)

/-- The `#` branch: the last character of the filter, and the characters before it. -/
def hashWildcard (topic topic2 : StdString) : Except Fault Bool :=
  match topic2.getLast? with
  | none => .error .outOfRange
  | some last =>
    let sz := topic2.length - 1
    .ok (last = '#'.toUInt8 && topic2.take sz = topic.take sz)

/-- The token walk of the `+` branch, over the tokens of the topic and of the filter. -/
def tokenWalk : List StdString → List StdString → Except Fault Bool
  | _, [] => .ok true
  | [], _ :: _ => .error .outOfRange
  | token1 :: vect1, token2 :: vect2 =>
    if token2 = ['+'.toUInt8] then tokenWalk vect1 vect2
    else if token2 ≠ token1 then .ok false
    else tokenWalk vect1 vect2

def plusWildcard (topic topic2 : StdString) : Except Fault Bool :=
  if '+'.toUInt8 ∈ topic2 then
    let vect1 := tokenizeTopic topic
    let vect2 := tokenizeTopic topic2
    if vect1.length = vect2.length then tokenWalk vect1 vect2 else .ok false
  else .ok false

/-- One turn of the loop over the map: the calls of one entry. -/
def entryCalls (topic msg topic2 : StdString) (hndl : H) : Except Fault (List (MessageCall H)) := do
  let call : MessageCall H := ⟨topic2, hndl, topic, msg⟩
  let equal := if topic2 = topic then [call] else []
  let hash := if ← hashWildcard topic topic2 then [call] else []
  let plus := if ← plusWildcard topic topic2 then [call] else []
  return equal ++ hash ++ plus

/-- The loop over the map. -/
def dispatch (topic msg : StdString) :
    List (StdString × H) → Except Fault (List (MessageCall H))
  | [] => .ok []
  | (topic2, hndl) :: rest => do
    let calls ← entryCalls topic msg topic2 hndl
    let others ← dispatch topic msg rest
    return calls ++ others

/-- The calls of handlers that a message leads to. The handlers are taken to return normally: an
exception would end the loop over the map. -/
def Imp.msgarrvd (s : Imp H) (topicName : List UInt8) (topicLen : Int) (payload : List UInt8) :
    Except Fault (List (MessageCall H)) :=
  dispatch (receivedTopic topicName topicLen) payload s.onMessageHndlMap.toList

/-! ### Tokens -/

theorem tokenizeLoop_eq (delimit : UInt8) (s : StdString) (retval : List StdString) :
    tokenizeLoop delimit s retval = retval ++ s.splitOn delimit := by
  induction s, retval using tokenizeLoop.induct delimit with
  | case1 s retval pos hfind ih =>
      obtain ⟨hlt, hpos, hbefore⟩ := List.findIdx?_eq_some_iff_getElem.mp hfind
      have hs : s = s.take pos ++ delimit :: s.drop (pos + 1) := by
        have hget : s[pos] = delimit := by simpa using hpos
        rw [← hget, ← List.drop_eq_getElem_cons hlt, List.take_append_drop]
      have hnotMem : delimit ∉ s.take pos := by
        intro hmem
        obtain ⟨i, hi, hget⟩ := List.mem_take_iff_getElem.mp hmem
        exact absurd hget (by simpa using hbefore i (by omega))
      have hsplit : s.splitOn delimit = [s.take pos] ++ (s.drop (pos + 1)).splitOn delimit := by
        conv_lhs => rw [hs]
        exact List.splitOn_append_cons_self_of_not_mem hnotMem _
      rw [tokenizeLoop, hfind, hsplit, ← List.append_assoc]
      exact ih
  | case2 s retval hfind =>
      have hnotMem : delimit ∉ s := by simpa using hfind
      rw [tokenizeLoop, hfind, List.splitOn_eq_singleton hnotMem]

/-- `tokenizeTopic` splits at every delimiter and keeps empty tokens. -/
theorem tokenizeTopic_eq (tokens : StdString) (delimit : UInt8) :
    tokenizeTopic tokens delimit = tokens.splitOn delimit :=
  tokenizeLoop_eq delimit tokens []

end Shapeware.Mqtt
