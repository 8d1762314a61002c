import ArmoredWitness.Slots.Crash
import ArmoredWitness.Slots.DeviceErrors
import ArmoredWitness.Slots.Isolation
import ArmoredWitness.Slots.Overlap
import ArmoredWitness.Slots.Reopen
import ArmoredWitness.Slots.StalePayload
import ArmoredWitness.Persistence.Durability
import ArmoredWitness.Persistence.Invariant
import ArmoredWitness.Persistence.Capacity
import ArmoredWitness.Persistence.Clients
import ArmoredWitness.Persistence.Coherence
import ArmoredWitness.Persistence.Concurrency
import ArmoredWitness.Slots.Erase
import ArmoredWitness.Slots.FaultyWrite
import ArmoredWitness.Slots.Tokens
import ArmoredWitness.Slots.Codec
import ArmoredWitness.Slots.Stream
import ArmoredWitness.Slots.Words
import ArmoredWitness.Mmc.Transfer
import ArmoredWitness.Update.Client
import ArmoredWitness.Applet.UpdateTrigger
import ArmoredWitness.Net.Waiting
import ArmoredWitness.Applet.Networking
import ArmoredWitness.Applet.Service
import ArmoredWitness.Applet.Witness
import ArmoredWitness.Mmc.Journal
