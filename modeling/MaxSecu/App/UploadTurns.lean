import MaxSecu.App.UploadRoundTrip
import MaxSecu.App.UploadRuns

/-!
# Computed runs of the upload commands

Runs of the commands with closed instances, in which the server and the disk have no faults; the
answers to commits may get lost.
-/

namespace MaxSecu

open Program AssociationList

section ClosedRuns

open ClosedRuns

/-- A user with no ML-KEM keys. -/
def plainUploader : Uploader where
  userId := ⟨.replicate 16 1⟩
  identity := (plainUpload ⟨.replicate 16 1⟩).owner
  chunkSize := CHUNK_SIZE_MIN

/-- The answer of the server, which gets lost if it is to a commit. -/
def UploadRequest.delivery (silent : Bool) (status : Status) : UploadRequest → Delivery
  | finalize _ _ => if silent then .unanswered status else .answered status
  | _ => .answered status

/-- What a call does when nothing fails; `silent` if the answers to commits get lost. -/
def UploadCall.apply (u : Uploader) (silent : Bool) :
    (c : UploadCall) → UploadWorld → c.Response × UploadWorld
  | connect, w => (true, w)
  | resolveRecipients, w => (some ⟨u.userId, 1, ⟨.replicate 32 2⟩, none, 0⟩, w)
  | random, w => ((plainDek, plainEntropy), w)
  | identity, w => (some u.identity, w)
  | now, w => (0, w)
  | request req, w =>
    let served := (req.fileRequest 0).serve none w.server
    (req.delivery silent served.1, { w with server := served.2 })
  | openContent fileId, w => ((w.dir fileId).content.isSome, w)
  | readChunk fileId offset size, w =>
    ((w.dir fileId).content.map fun content => (content.drop offset).take size, w)
  | placeContent fileId bytes, w => (true, w.setDir fileId ⟨(w.dir fileId).record, some bytes⟩)
  | persist rec, w => (true, w.setDir rec.fileId ⟨some rec, (w.dir rec.fileId).content⟩)
  | load fileId, w => ((w.dir fileId).record, w)
  | listPending, w => (w.pending, w)
  | remove fileId, w => (true, { w with staging := w.staging.erase fileId })
  | takeJob jobId, w => (w.jobs.lookup jobId, { w with jobs := w.jobs.erase jobId })
  | putJob jobId job, w => ((), { w with jobs := w.jobs.insert jobId job })
  | hasBundle jobId, w => (decide (jobId ∈ w.bundles), w)
  | takeBundle jobId, w =>
    (w.bundles.lookup jobId, { w with bundles := w.bundles.erase jobId })
  | putBundle jobId job, w => ((), { w with bundles := w.bundles.insert jobId job })

def plainServer : UploadServer := ⟨false, none⟩

lemma UploadCall.step_apply (u : Uploader) (silent : Bool) (c : UploadCall) (w : UploadWorld) :
    UploadCall.Step u plainServer c w (c.apply u silent w).1 (c.apply u silent w).2 := by
  cases c with
  | resolveRecipients =>
    refine ⟨rfl, ?_⟩
    intro found hfound
    obtain rfl := Option.some.inj hfound
    rfl
  | identity => exact ⟨rfl, .inr rfl⟩
  | request req =>
    refine ⟨_, .inl ⟨0, _, FileRequest.runs_serve, ?_⟩, rfl⟩
    cases req with
    | finalize fileId callerId =>
      cases silent with
      | false => exact .inl rfl
      | true => exact .inr rfl
    | _ => exact .inl rfl
  | openContent fileId => exact ⟨rfl, fun h => h⟩
  | readChunk fileId offset size =>
    refine ⟨rfl, ?_⟩
    intro bytes hbytes
    exact Option.map_eq_some_iff.mp hbytes
  | placeContent fileId bytes => exact .inl ⟨rfl, rfl⟩
  | persist rec => exact .inl ⟨rfl, rfl⟩
  | load fileId => exact ⟨rfl, .inr rfl⟩
  | listPending => exact ⟨rfl, List.Subperm.refl _⟩
  | remove fileId => exact .inl ⟨rfl, rfl⟩
  | takeJob jobId => exact ⟨rfl, rfl⟩
  | hasBundle jobId => exact ⟨rfl, decide_eq_true_iff⟩
  | takeBundle jobId => exact ⟨rfl, rfl⟩
  | _ => rfl

/-- The world after a command that ran to its end. -/
def UploadWorld.after (w : UploadWorld) (silent : Bool) (command : UploadCommand) : UploadWorld :=
  (eval (UploadCall.apply plainUploader silent) (command.program plainUploader)
    (w.draw command.draws)).2

/-- A command as it runs when nothing fails. -/
def UploadWorld.turn (w : UploadWorld) (silent : Bool) (command : UploadCommand) : UploadTurn where
  command := command
  trace := System.events (UploadCall.apply plainUploader silent) (command.program plainUploader)
    (w.draw command.draws)
  result := some (eval (UploadCall.apply plainUploader silent) (command.program plainUploader)
    (w.draw command.draws)).1

lemma UploadWorld.next_turn {w : UploadWorld} {command : UploadCommand} (silent : Bool)
    (hmay : command.May w) :
    Next plainUploader plainServer w (w.turn silent command) (w.after silent command) :=
  .returned hmay (traced_eval (UploadCall.step_apply plainUploader silent) _ _)

lemma UploadWorld.exists_next {w : UploadWorld} {command : UploadCommand} (silent : Bool)
    (hmay : command.May w) : ∃ turn, turn.command = command ∧
      Next plainUploader plainServer w turn (w.after silent command) :=
  ⟨w.turn silent command, rfl, next_turn silent hmay⟩

/-- A new app, and a server that knows nothing. -/
def UploadWorld.empty : UploadWorld := ⟨⟨∅, ∅⟩, ∅, ∅, ∅, ∅⟩

lemma UploadWorld.start_empty : UploadWorld.empty.Start where
  reached := ServerState.reached_empty
  taken _ _ h := absurd h (by simp [empty])
  unknown _ _ := ⟨rfl, fun _ _ _ => rfl⟩
  staging := rfl
  jobs := rfl
  bundles := rfl

lemma UploadCommand.may_of_draws_nil {w : UploadWorld} {command : UploadCommand}
    (hdraws : command.draws = []) (hjob : command.drawsJob = none) : command.May w where
  fresh d hd := by
    rw [hdraws] at hd
    exact absurd hd List.not_mem_nil
  distinct := by
    rw [hdraws]
    exact List.nodup_nil
  freshJob jobId h := by
    rw [hjob] at h
    exact absurd h (by simp)

/-- A post of two bytes that are staged on disk. -/
def diskPost : StageRequest :=
  ⟨⟨.replicate 16 5⟩, .generic, "", .disk ⟨none, none, none⟩ [1, 2] 2 [1, 2]⟩

end ClosedRuns

end MaxSecu
