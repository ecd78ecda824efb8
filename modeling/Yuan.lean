import Yuan.Core.EncoderCacheRuns
import Yuan.Core.CacheIsolation
import Yuan.Core.KVCacheLayout
import Yuan.Core.ARCBounds
import Yuan.Core.TokenGrouping
import Yuan.Core.InvalidBlocks
import Yuan.Core.PipelineRounds
import Yuan.Worker.ReplayRuns
import Yuan.Engine.WakeUps
import Yuan.SharedMemory.BroadcastRuns
import Yuan.Frontend.ParallelRuns
import Yuan.Eplb.RebalanceExperts
import Yuan.Reward.SafeBatches
import Yuan.Core.CacheReset
import Yuan.Core.FailedStores
import Yuan.Trainer.Checkpoints
import Yuan.Reward.ProcessScoring
import Yuan.Reward.ScoringGroups
import Yuan.Core.EncoderDecoderRuns
import Yuan.Core.StoredBlockEvents
import Yuan.Core.AutoFit
import Yuan.Trainer.GroupAdvantages
import Yuan.Core.MambaRuns
import Yuan.SpecDecode.NgramProposer
import Yuan.SpecDecode.GreedyRejection
import Yuan.SpecDecode.RandomRejection
import Yuan.StructuredOutput.ApplyGrammarBitmask
import Yuan.SharedMemory.RingRuns
import Yuan.Worker.SlotBijection
import Yuan.Multimodal.LRURuns
import Yuan.Serial.EngineMessages
import Yuan.Core.FreeQueueRuns
import Yuan.Sampling.ConstraintsUnderSpeculation
import Yuan.Eplb.GreedyReplication
import Yuan.Trainer.MaskedGae
import Yuan.SingleController.DispatchOrder
import Yuan.Balancing.TokenLimit
import Yuan.Reward.MarkersDeleted
import Yuan.Multimodal.UpdatedPrompts
import Yuan.Core.Repetition
import Yuan.Core.QueueRuns
