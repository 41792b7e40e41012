import HostSubnets.Api.Cache
import HostSubnets.Api.Client
import HostSubnets.Api.Resource
import HostSubnets.Api.Server
import HostSubnets.Cidr.Basic
import HostSubnets.Cidr.Text
import HostSubnets.Cidr.V4
import HostSubnets.Cidr.V6
import HostSubnets.Cli.Options
import HostSubnets.Cli.Reader
import HostSubnets.Cli.Session
import HostSubnets.Cli.Settings
import HostSubnets.Controller.Agenda
import HostSubnets.Controller.Basic
import HostSubnets.Controller.Run
import HostSubnets.Endpoint
import HostSubnets.Error
import HostSubnets.Json.Basic
import HostSubnets.Json.Decode
import HostSubnets.Json.Magnitude
import HostSubnets.Json.Reader
import HostSubnets.Json.Schema
import HostSubnets.Main
import HostSubnets.Metrics
import HostSubnets.Metrics.Page
import HostSubnets.Metrics.Text
import HostSubnets.Network
import HostSubnets.Node.Annotations
import HostSubnets.Node.Basic
import HostSubnets.Node.Json
import HostSubnets.Node.Schema
import HostSubnets.Number.Double
import HostSubnets.Pool.Basic
import HostSubnets.Pool.Block
import HostSubnets.Pool.Error
import HostSubnets.Pool.Reconcile
import HostSubnets.Pool.Request
import HostSubnets.Proofs.Cidr.Sharing
import HostSubnets.Proofs.Pool.Numbering
import HostSubnets.Proofs.SortedMap
import HostSubnets.Range
import HostSubnets.Reconciler.Basic
import HostSubnets.Reconciler.Event
import HostSubnets.Reconciler.Request
import HostSubnets.Reconciler.Together
import HostSubnets.Retry.Backoff
import HostSubnets.Retry.Duration
import HostSubnets.SortedMap
import HostSubnets.Store.Basic
import HostSubnets.Store.Error
import HostSubnets.Store.Memory
import HostSubnets.Store.Scripted
import HostSubnets.Task
import HostSubnets.Text.Blank
import HostSubnets.Text.Inert
import HostSubnets.Text.Numeral
import HostSubnets.Text.Quoted
import HostSubnets.Text.Shown
import HostSubnets.Text.Timestamp
import HostSubnets.Text.Uri
import HostSubnets.Proofs.Pool.Coherence
import HostSubnets.Proofs.Pool.Operations
import HostSubnets.Proofs.Pool.Representation
import HostSubnets.Proofs.Pool.Seen
import HostSubnets.Proofs.Task.Always
import HostSubnets.Proofs.Cidr.V4
import HostSubnets.Proofs.Pool.Reconcile
import HostSubnets.Proofs.Cidr.V6
import HostSubnets.Proofs.Cidr.Text
import HostSubnets.Proofs.Json.RoundTrip
import HostSubnets.Proofs.Node.Annotations
import HostSubnets.Proofs.Store.Faithful
import HostSubnets.Proofs.Reconciler.View
import HostSubnets.Proofs.Reconciler.Managed
import HostSubnets.Proofs.Reconciler.Frame
import HostSubnets.Proofs.Reconciler.Seeding
import HostSubnets.Proofs.Reconciler.Launch
import HostSubnets.Proofs.Reconciler.Sequential
import HostSubnets.Proofs.Reconciler.Concurrent
import HostSubnets.Proofs.Pool.Exhaustion
import HostSubnets.Proofs.Reconciler.Vanished
import HostSubnets.Proofs.Pool.Room
import HostSubnets.Proofs.Pool.Choice
import HostSubnets.Proofs.Pool.Contest
import HostSubnets.Proofs.Reconciler.Demand
import HostSubnets.Proofs.Reconciler.Stability
import HostSubnets.Proofs.Reconciler.Deletion
import HostSubnets.Proofs.Reconciler.Race
import HostSubnets.Proofs.Reconciler.Watching
import HostSubnets.Proofs.Reconciler.FixedPoint
import HostSubnets.Proofs.Reconciler.Restart
import HostSubnets.Proofs.Reconciler.Service
import HostSubnets.Proofs.Reconciler.Overlap
import HostSubnets.Proofs.Reconciler.Terminating
import HostSubnets.Proofs.Pool.Supply
import HostSubnets.Proofs.Pool.Crowd
import HostSubnets.Proofs.Pool.Crossing
import HostSubnets.Proofs.Reconciler.Lifetimes
import HostSubnets.Proofs.Store.Versions
import HostSubnets.Proofs.Reconciler.Writers
import HostSubnets.Proofs.Node.Networks
import HostSubnets.Proofs.Pool.Result
import HostSubnets.Proofs.Pool.Lists
import HostSubnets.Proofs.Pool.FirstFit
import HostSubnets.Proofs.Pool.Selection
import HostSubnets.Proofs.Reconciler.FirstCome
import HostSubnets.Proofs.Store.Retaining
import HostSubnets.Proofs.Reconciler.Withdrawal
import HostSubnets.Proofs.Pool.Words
import HostSubnets.Proofs.Pool.Registration
import HostSubnets.Proofs.Pool.Allocation
import HostSubnets.Proofs.Store.Contended
import HostSubnets.Proofs.Reconciler.Confined
import HostSubnets.Proofs.Pool.Batches
import HostSubnets.Proofs.Range
import HostSubnets.Proofs.Retry.Attempts
import HostSubnets.Proofs.Pool.Families
import HostSubnets.Proofs.Reconciler.Lacking
import HostSubnets.Proofs.Number.Rounding
import HostSubnets.Proofs.Retry.Scaling
import HostSubnets.Proofs.Retry.Delays
import HostSubnets.Proofs.Pool.Figures
