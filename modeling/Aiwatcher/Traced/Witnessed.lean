import Aiwatcher.Evaluations.Model
import Aiwatcher.Library.Groups
import Aiwatcher.Library.Saturation

/-!
# Aiwatcher.Traced.Witnessed

The calls and tools a run's witnesses served for it: which calls were made of nothing the
application added (`groundedCalls`), and whether the answer was chosen the way the variant pins
(`chosenAsPinned`; `traced.rs`).

Keyed digests and canonical JSON are parameters.  A call goes together with what the code keeps
beside it by its place: its replies, and the marks of the calls grounded and answering.
-/

namespace Aiwatcher.Traced

open Library

/-! ## What witnesses say -/

inductive Said where
  | asked | replied | taking
  deriving DecidableEq, Repr

abbrev Key := BitVec 256

/-- The words' digests and spelling (`witness.rs`). -/
structure Spelling where
  digest : Key → Said → String → String
  canonical : Value → String

/-- One model call, as its span says; of its fields, those a chain of calls is read by. -/
structure TracedCall where
  promptName : Option String
  promptVersion : Option String
  promptVerified : Option Bool
  promptExact : Option Bool
  publishedBy : Option String
  replied : List String
  rendered : List String
  placed : List (String × String)
  derived : List (String × String)
  taken : List String
  taking : Option String
  tookNothing : Bool
  startedMs : Option Int
  deriving DecidableEq, Repr

structure TracedTool where
  name : Option String
  publishedBy : Option String
  arguments : List String
  returned : List String
  code : Option String
  deriving DecidableEq, Repr

structure TracedRun where
  publishedBy : Option String
  servedForIt : List TracedCall
  toolsServedForIt : List TracedTool
  deriving DecidableEq, Repr

inductive JudgedOrder where
  | witnessed | bothWays
  deriving DecidableEq, Repr

/-- How a variant pins choosing its answer among replies that went into nothing else. -/
inductive Choosing where
  | first
  | mostOf (n : Nat)
  | judged (prompt version : String) (pick : Value) (order : Option JudgedOrder)

def Choosing.judgePrompt : Choosing → Option (String × String)
  | judged prompt version _ _ => some (prompt, version)
  | first => none
  | mostOf _ => none

structure Witnesses where
  named : List String
  keys : BTreeMap String Key
  taking : Option Value
  chosen : Option Choosing
  toolCode : BTreeMap String String
  judgePlaces : Option (List String)

def Witnesses.admits (witnesses : Witnesses) (witness : String) : Bool :=
  witnesses.named.isEmpty || witnesses.named.contains witness

/-- Of a variant's manifest, the prompt it pins. -/
structure VariantManifest where
  prompt : Option Evaluations.VersionReference

section

variable (spelling : Spelling)

/-- What a call replied, as a witness under `key` says: its replies, and what a way of taking that
knows more than them took, where that way is `rule`. -/
def takenBy (call : TracedCall) (key : Key) (rule : Option Value) : List String :=
  let pinned := rule.any fun rule =>
    call.taking == some (spelling.digest key .taking (spelling.canonical rule))
  call.replied ++ call.taken.filter fun _ => pinned

variable (run : TracedRun) (witnesses : Witnesses)

def repliesOf (call : TracedCall) (key : Key) : List String :=
  takenBy spelling call key witnesses.taking

/-- The key a witness's digests in the run are made under: a credential the deployment admits, other
than the one the run was published under. -/
def witnessKey (publishedBy : Option String) : Option Key := do
  let witness ← publishedBy
  let admitted := run.publishedBy.any (· != witness) && witnesses.admits witness
  (witnesses.keys[witness]?).filter fun _ => admitted

/-! ## The case's input -/

def answeredAs : Value → List String
  | .string text => if isBlank text then [] else [text]
  | .null => []
  | answer => [spelling.canonical answer]

mutual

/-- The texts a value a template was rendered with may be: the input and every part of it. -/
def carriedAs : Value → List String
  | .array items => answeredAs spelling (.array items) ++ carriedItems items
  | .object fields => answeredAs spelling (.object fields) ++ carriedFields fields
  | value => answeredAs spelling value

def carriedItems : List Value → List String
  | [] => []
  | item :: items => carriedAs item ++ carriedItems items

def carriedFields : List (String × Value) → List String
  | [] => []
  | (_, field) :: fields => carriedAs field ++ carriedFields fields

end

/-! ## Calls made of nothing the application added -/

variable (pin : Evaluations.VersionReference)

/-- The key of a call on the pinned prompt, or on the one a pinned way of choosing asks a judging
call on, found to be nothing but its template rendered. -/
def callKey (call : TracedCall) : Option Key :=
  let judging := (witnesses.chosen.bind Choosing.judgePrompt).any fun judge =>
    call.promptName == some judge.1 && call.promptVersion == some judge.2
  let madeOfThePrompt :=
    (judging || call.promptName == some pin.name && call.promptVersion == some pin.version) &&
      call.promptVerified == some true && call.promptExact == some true && !call.rendered.isEmpty
  (witnessKey run witnesses call.publishedBy).filter fun _ => madeOfThePrompt

/-- The key of a tool, where the variant pins its code only if that code answered. -/
def toolKey (tool : TracedTool) : Option Key :=
  (witnessKey run witnesses tool.publishedBy).filter fun _ =>
    (tool.name.bind fun name => witnesses.toolCode[name]?).all fun pinned =>
      tool.code == some pinned

/-- A value taken out of a known value is known, and so on down a chain of them. -/
def knownThrough : Nat → List (String × String) → List String → List String
  | 0, _, known => known
  | steps + 1, derived, known =>
    match derived.find? fun pair => known.contains pair.2 && !known.contains pair.1 with
    | some (value, _) => knownThrough steps derived (value :: known)
    | none => known

def callRule (call : TracedCall) : Rule String where
  enabled accounted := (callKey run witnesses pin call).isSome &&
    call.rendered.all (knownThrough call.derived.length call.derived accounted).contains
  gives := ((callKey run witnesses pin call).map (repliesOf spelling witnesses call)).getD []

def toolRule (tool : TracedTool) : Rule String where
  enabled accounted := (toolKey run witnesses tool).isSome && tool.arguments.all accounted.contains
  gives := tool.returned

/-- The input and its parts, under every key. -/
def carried (input : Value) : List String :=
  (run.servedForIt.filterMap (callKey run witnesses pin) ++
    run.toolsServedForIt.filterMap (toolKey run witnesses)).flatMap fun key =>
      (carriedAs spelling input).map (spelling.digest key .replied)

/-- The calls, and behind them the tools. -/
def groundingRules : List (Rule String) :=
  run.servedForIt.map (callRule spelling run witnesses pin) ++
    run.toolsServedForIt.map (toolRule run witnesses)

/-- Found by adding a call or a tool once all it was made of is accounted for, until none is left
to add. -/
def groundedCalls (variant : VariantManifest) (input : Option Value) : List Bool :=
  match variant.prompt, input with
  | some pin, some input =>
    ((saturate (groundingRules spelling run witnesses pin)
      (carried spelling run witnesses pin input)).1.take run.servedForIt.length).map (·.2)
  | _, _ => run.servedForIt.map fun _ => false

/-! ## How the answer was chosen -/

/-- What choosing an answer among replies that went into nothing else came to. -/
inductive Choice where
  | picked
  | judgedUnordered
  | chosen (why : Option String)
  deriving DecidableEq, Repr

/-- A call with its replies, and whether it is grounded and answers. -/
structure Seen where
  call : TracedCall
  replies : List String
  grounded : Bool
  answering : Bool
  deriving DecidableEq, Repr

def seenOf (grounded : List Bool) (answeredBy : List Nat) : List Seen :=
  run.servedForIt.zipIdx.map fun seen =>
    { call := seen.1
      replies := ((witnessKey run witnesses seen.1.publishedBy).map
        (repliesOf spelling witnesses seen.1)).getD []
      grounded := (grounded[seen.2]?).getD false
      answering := answeredBy.contains seen.2 }

/-- A tool's arguments went on only where what it returned did. -/
def onwardRule (tool : TracedTool) : Rule String where
  enabled wentOn := tool.returned.any wentOn.contains
  gives := tool.arguments

/-- What went into a call a witness relayed, or into a tool whose result went on. -/
def wentOn : List String :=
  let witnessed := run.servedForIt.filter fun call =>
    (witnessKey run witnesses call.publishedBy).isSome
  let tools := run.toolsServedForIt.filter fun tool =>
    (witnessKey run witnesses tool.publishedBy).isSome
  (saturate (tools.map onwardRule)
    (witnessed.flatMap fun call => call.rendered ++ call.derived.map (·.2))).2

/-- The calls whose replies went into nothing else, but those whose way of taking their answer, the
same as the answer's, took nothing. -/
def finals (seen : List Seen) : List Seen :=
  let wentOn := wentOn run witnesses
  let takings := (seen.filter (·.answering)).filterMap (·.call.taking)
  (seen.filter fun final => !final.replies.isEmpty).filter (fun final =>
      final.answering || !final.replies.any wentOn.contains) |>.filter fun final =>
    !(final.call.tookNothing && final.call.taking.any takings.contains)

/-! ### The first reply -/

def timed : List Seen → Option (List (Int × Seen))
  | [] => some []
  | final :: finals => do
      let started ← final.call.startedMs
      let rest ← timed finals
      pure ((started, final) :: rest)

def earlier (one other : Int × Seen) : Bool := decide (one.1 ≤ other.1)

def firstPicked (finals : List Seen) : Option Bool := do
  let sorted := (← timed finals).mergeSort earlier
  let first ← sorted.head?
  pure ((sorted.takeWhile fun one => one.1 == first.1).all (·.2.answering))

/-! ### The reply given most often -/

/-- Replies that share a digest are one reply given again. -/
def sharing (one other : Seen) : Bool := one.replies.any other.replies.contains

/-- The places of two that share a reply. -/
def sharingPairs (finals : List Seen) : List (Nat × Nat) :=
  (List.range finals.length).flatMap fun one =>
    ((List.range finals.length).filter fun other =>
      decide (one < other) && match finals[one]?, finals[other]? with
        | some first, some second => sharing first second
        | _, _ => false).map fun other => (one, other)

def mostPicked (n : Nat) (finals : List Seen) : Option Bool :=
  if finals.length ≠ n then none
  else
    let pairs := sharingPairs finals
    let tops := roots pairs.length (joinAll pairs) (List.range finals.length)
    match (((tops.zip finals).filter (·.2.answering)).map (·.1)).dedup with
    | [answer] => some (tops.all fun top => top == answer || tops.count top < tops.count answer)
    | _ => none

/-! ### The reply a judge named -/

/-- A way of choosing by a judge, as the variant pins it. -/
structure JudgedPin where
  prompt : String
  version : String
  pick : Value
  order : Option JudgedOrder

variable (judgedPin : JudgedPin)

/-- The value placed where a judging call's reply says: a call on the pinned prompt, taking its
answer out the pinned way, naming one placeholder. -/
def pickedBy (call : TracedCall) : Option String := do
  let key ← witnessKey run witnesses call.publishedBy
  if call.promptName ≠ some judgedPin.prompt ∨ call.promptVersion ≠ some judgedPin.version ∨
      call.taking ≠ some (spelling.digest key .taking (spelling.canonical judgedPin.pick)) then none
  else
    let said := takenBy spelling call key (some judgedPin.pick)
    match ((call.placed.filter fun placed => said.contains placed.1).map (·.2)).dedup with
    | [picked] => some picked
    | _ => none

/-- Where each placeholder is placed, by the digest of its name; the last of one name counts. -/
def positions (key : Key) (places : List String) : BTreeMap String Nat :=
  places.zipIdx.foldl (fun known place => known.insert (spelling.digest key .replied place.1) place.2)
    ∅

/-- The candidates a judge was shown, in the order the judging prompt's placeholders place them. -/
def shown (candidates : List String) (call : TracedCall) : Except String (List String) :=
  match witnessKey run witnesses call.publishedBy with
  | none => .error ""
  | some key =>
    match witnesses.judgePlaces with
    | none => .error ("the order the judge was shown the candidates in could not be held to " ++
        judgedPin.prompt ++ " at " ++ judgedPin.version ++ ", whose text this step could not read")
    | some places =>
      let position := positions spelling key places
      let shown := call.placed.filter fun placed => candidates.contains placed.2
      match shown.mapM fun placed => (position[placed.1]?).map fun place => (place, placed.2) with
      | none => .error ("the judge was shown a candidate where " ++ judgedPin.prompt ++ " at " ++
          judgedPin.version ++ " places nothing")
      | some placed =>
        .ok ((placed.mergeSort fun one other =>
          decide (one.1 < other.1) || one.1 == other.1 && decide (one.2 ≤ other.2)).map (·.2))

/-- Why the calls besides the answer's are not the judge. -/
def miscounted (judges : Nat) : Option String :=
  let went := if judges = 1 then "1 call went" else judges.repr ++ " calls went"
  judgedPin.order.map fun order =>
    match order with
    | .bothWays => "the variant pins asking the judge " ++ judgedPin.prompt ++ " both ways, and " ++
        went ++ " into nothing else"
    | .witnessed => "the variant pins asking the judge " ++ judgedPin.prompt ++
        " once, in the witnessed order, and " ++ went ++ " into nothing else"

/-- Whether the orders a judge was shown are the pinned one. -/
def ordered (order : JudgedOrder) (orders : List (List String)) : Choice :=
  match order with
  | .witnessed =>
    let shown := orders.headD []
    if (shown.zip shown.tail).all fun pair => decide (pair.1 ≤ pair.2) then .picked
    else .chosen (some ("the judge " ++ judgedPin.prompt ++
      " was shown the candidates in an order the application placed them in, not the " ++
      "witnessed order the variant pins"))
  | .bothWays =>
    if orders.headD [] = (orders.getD 1 []).reverse then .picked
    else .chosen (some ("the judge " ++ judgedPin.prompt ++
      " was not shown the candidates the second time in the reverse of the first order"))

/-- Whether the judges, each naming one placeholder whose value is the answer's reply, were shown the
candidates in the pinned order. -/
def judgedBy (seen judges : List Seen) : Choice :=
  match judges.mapM fun judge => pickedBy spelling run witnesses judgedPin judge.call with
  | none => .chosen none
  | some picks =>
    let pick := picks.headD ""
    if picks.any (· != pick) then
      .chosen (some ("the judge " ++ judgedPin.prompt ++
        " named different replies when asked both ways"))
    else if !(seen.filter (·.answering)).all fun answer => answer.replies.contains pick then
      .chosen none
    else
      match judgedPin.order with
      | none => .judgedUnordered
      | some order =>
        let candidates := (seen.filter fun other => !judges.contains other).flatMap (·.replies)
        match judges.mapM fun judge =>
            shown spelling run witnesses judgedPin candidates judge.call with
        | .error why => .chosen (if why = "" then none else some why)
        | .ok orders => ordered judgedPin order orders

/-- Whether the judge a variant pins picked the answer: the calls besides the answer's that went
into nothing else are as many as it pins. -/
def judgedAsPinned (seen finals : List Seen) : Choice :=
  let judges := finals.filter (!·.answering)
  let asked := if judgedPin.order = some .bothWays then 2 else 1
  if judges.length ≠ asked then .chosen (miscounted judgedPin judges.length)
  else judgedBy spelling run witnesses judgedPin seen judges

/-! ### The way the variant pins -/

def ofPick : Option Bool → Choice
  | some true => .picked
  | _ => .chosen none

/-- Whether an answer made of these calls' replies was not chosen among others, or was chosen the
way the variant pins. -/
def chosenAsPinned (grounded : List Bool) (answeredBy : List Nat) (inParts : Bool) : Choice :=
  let seen := seenOf spelling run witnesses grounded answeredBy
  let finals := finals run witnesses seen
  if finals.all (·.answering) then .picked
  else if inParts || !finals.all (·.grounded) then .chosen none
  else
    match witnesses.chosen with
    | none => .chosen none
    | some .first => ofPick (firstPicked finals)
    | some (.mostOf n) => ofPick (mostPicked n finals)
    | some (.judged prompt version pick order) =>
      judgedAsPinned spelling run witnesses ⟨prompt, version, pick, order⟩ seen finals

end

end Aiwatcher.Traced
